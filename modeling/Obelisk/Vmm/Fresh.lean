import Obelisk.Vmm.Destroy
import Obelisk.Vmm.Exact

/-!
# Mappings at an address of the kernel's choice

`vmm_mmap` without `MAP_FIXED` takes the first gap between the areas from `USER_HEAP_BASE` on.
-/

namespace Obelisk

open KLib Relation List Option

variable {P : Type} [FramePool P]
variable {addr file length p root start stop v : ℕ} {A D : ℕ → Prop} {L : Set Loc} {m : Machine P}
  {flags prot : BitVec 32} {offset : BitVec 64}
variable {K : ℕ → Prop} {l : List (ℕ × Area)}

lemma OwnStep.entryAt_elsewhere {x y : Machine P × Set Loc}
    (hstep : OwnStep root K A x y) (h : Owns root K D x.2 x.1) (hv : v < userSpaceEnd)
    (hA : ∀ a, A a → a < userSpaceEnd ∧ a / 4096 ≠ v / 4096) :
    entryAt y.1.mem root v = entryAt x.1.mem root v := by
  have hend : userSpaceEnd < 2 ^ 48 := by decide
  refine hstep.entryAt_eq h fun a l ha hlast hvl hl => ?_
  obtain ⟨hlt, hne⟩ := hA a ha
  rcases walkLoc_halfSep h.level h.half hlast hl hvl with ⟨hp, hi⟩ | ⟨h1, -⟩
  · exact hne (page_eq_of_indices (hlt.trans hend) (hv.trans hend) hp hi)
  · exact absurd (lowPage_index hlt) (not_lt.mpr h1)

lemma PageSteps.entryAt_elsewhere {m' : Machine P}
    (hs : PageSteps root A m m') (h : Owns root K D L m) (hD : ∀ a, UserPage a → D a)
    (hA : ∀ a, A a → UserPage a) (hp : UserPage p) (hnot : ¬ A p) :
    entryAt m'.mem root p = entryAt m.mem root p := by
  have hin : ∀ a, A a → a % pageSize = 0 ∧ a < 2 ^ 64 ∧ D a := fun a ha =>
    ⟨(hA a ha).1, (hA a ha).2.trans (by decide), hD a (hA a ha)⟩
  obtain ⟨L', hsteps⟩ := PageSteps.ownSteps h hin hs
  have hother : ∀ a, A a → a < userSpaceEnd ∧ a / 4096 ≠ p / 4096 := by
    intro a ha
    refine ⟨(hA a ha).2, fun he => hnot ?_⟩
    have h1 := (hA a ha).1
    have h₂ := hp.1
    simp only [pageSize] at h1 h₂
    obtain rfl : a = p := by omega
    exact ha
  have key : ∀ {x y : Machine P × Set Loc}, OwnSteps root K A x y → Owns root K D x.2 x.1 →
      entryAt y.1.mem root p = entryAt x.1.mem root p := by
    intro x y hxy hx
    induction hxy with
    | refl => rfl
    | tail hxy hstep ih => exact (hstep.entryAt_elsewhere (OwnSteps.owns hxy hx) hp.2 hother).trans ih
  exact key hsteps h

lemma Owns.entryAt_none (h : Owns root K D L m) (hD : D v) (hres : mmuResolve root v m = 0) :
    entryAt m.mem root v = none := by
  by_contra hne
  obtain ⟨e, he⟩ := ne_none_iff_exists'.mp hne
  obtain ⟨l, hl, rfl⟩ := entryAt_some.mp he
  rw [mmuResolve_eq, he] at hres
  have hframe : pteGetFrame (m.mem.read l) = 0 := (Nat.or_eq_zero_iff.mp hres).1
  refine (h.frame (h.cover v hD l hl)).ne ?_
  rw [pteTable, hframe]
  rfl

/-! ## Clean address spaces -/

def Clean (s : Space P) (l : List (ℕ × Area)) : Prop :=
  ∀ p, p % pageSize = 0 → (p < userSpaceEnd ∧ entryAt s.mm.machine.mem s.as.pt p ≠ none ∨
      s.as.brkStart ≤ p ∧ p < s.as.brkEnd) → (viewAt l p).isSome

/-- A clean address space. -/
structure Tidy (K : ℕ → Prop) (s : Space P) (l : List (ℕ × Area)) : Prop where
  inv : ∃ L, SpaceInv K L s
  listed : Listed s l
  clean : Clean s l

def Space.Covers (s : Space P) (p : ℕ) : Prop := ∃ v, vmmFindVma p s = some v ∧ v ≠ 0

omit [FramePool P] in
lemma Listed.covers_iff {s : Space P} (h : Listed s l) (p : ℕ) :
    s.Covers p ↔ (viewAt l p).isSome := by
  rw [viewAt_isSome]
  obtain ⟨r, hr, hcase⟩ := vmmFindVma_spec h p
  constructor
  · rintro ⟨v, hv, h0⟩
    obtain rfl := some.inj (hr.symm.trans hv)
    obtain ⟨a, ha, hin⟩ | ⟨hz, -⟩ := hcase
    · exact ⟨_, ha, hin⟩
    · exact absurd hz h0
  rintro ⟨y, hy, hin⟩
  refine ⟨r, hr, ?_⟩
  obtain ⟨a, ha, -⟩ | ⟨-, hnone⟩ := hcase
  · obtain ⟨last, hseg⟩ := h.seg
    exact (hseg.mem_some ha).1
  · exact absurd hin (hnone y hy)

variable {K : ℕ → Prop} {s t : Space P} {l l' : List (ℕ × Area)}

lemma Tidy.step (h : Tidy K s l) (hl : Listed t l') (hstep : SpaceStep A s t)
    (hmono : ∀ p, (viewAt l p).isSome → (viewAt l' p).isSome)
    (hA : ∀ p, A p → p % pageSize = 0 ∧ (viewAt l' p).isSome) : Tidy K t l' := by
  have huser : ∀ p, A p → UserPage p := by
    intro p hp
    obtain ⟨y, hy, hin⟩ := viewAt_isSome.mp (hA p hp).2
    exact ⟨(hA p hp).1, hin.2.trans_le (hl.ok y hy).stop_le⟩
  obtain ⟨L, hinv⟩ := h.inv
  obtain ⟨L', -, hinv'⟩ :=
    hinv.step hl ⟨hstep.machine.mono huser, hstep.pt, hstep.brkStart, hstep.brkEnd⟩
  refine ⟨⟨L', hinv'⟩, hl, ?_⟩
  rintro p hp (⟨hlt, hentry⟩ | hheap)
  · by_cases hAp : A p
    · exact (hA p hAp).2
    · rw [hstep.pt, hstep.machine.entryAt_elsewhere hinv.owns
        (fun a ha => .inl (lowPage_index ha.2)) huser ⟨hp, hlt⟩ hAp] at hentry
      exact hmono p (h.clean p hp (.inl ⟨hlt, hentry⟩))
  rw [hstep.brkStart, hstep.brkEnd] at hheap
  exact hmono p (h.clean p hp (.inr hheap))

lemma Cut.has {x : ℕ} {a : Area} {l : List (ℕ × Area)} (h : Cut start stop x a l)
    (hp : a.Has p) (hnot : ¬ (start ≤ p ∧ p < stop)) : ∃ y ∈ l, y.2.Has p := by
  obtain ⟨hlo, hhi⟩ := hp
  cases h with
  | remove h1 h₂ => exact absurd ⟨h1.trans hlo, hhi.trans_le h₂⟩ hnot
  | split q h1 h₂ =>
    by_cases hs : p < start
    · exact ⟨_, mem_cons_self, hlo, hs⟩
    · exact ⟨_, mem_cons_of_mem _ mem_cons_self, le_of_not_gt fun h => hnot ⟨by omega, h⟩, hhi⟩
  | splitFail => exact ⟨_, mem_cons_self, hlo, hhi⟩
  | trimEnd h1 h₂ =>
    exact ⟨_, mem_cons_self, hlo, Nat.lt_of_not_le fun h => hnot ⟨h, hhi.trans_le h₂⟩⟩
  | trimStart h1 h₂ =>
    exact ⟨_, mem_cons_self, le_of_not_gt fun h => hnot ⟨h1.trans hlo, h⟩, hhi⟩

lemma CutList.has {l l' : List (ℕ × Area)} (h : CutList start stop l l')
    (hp : ∃ y ∈ l, y.2.Has p) (hnot : ¬ (start ≤ p ∧ p < stop)) : ∃ y ∈ l', y.2.Has p := by
  induction h with
  | nil | done => exact hp
  | cut _ _ hcut _ ih =>
    obtain ⟨y, hy, hin⟩ := hp
    rcases mem_cons.mp hy with rfl | hy
    · obtain ⟨z, hz, hin⟩ := hcut.has hin hnot
      exact ⟨z, mem_append_left _ hz, hin⟩
    obtain ⟨z, hz, hin⟩ := ih ⟨y, hy, hin⟩
    exact ⟨z, mem_append_right _ hz, hin⟩
  | skip _ _ ih =>
    obtain ⟨y, hy, hin⟩ := hp
    rcases mem_cons.mp hy with rfl | hy
    · exact ⟨_, mem_cons_self, hin⟩
    obtain ⟨z, hz, hin⟩ := ih ⟨y, hy, hin⟩
    exact ⟨z, mem_cons_of_mem _ hz, hin⟩

def Space.HeapAvoids (s : Space P) (start stop : ℕ) : Prop :=
  ∀ p, start ≤ p → p < stop → ¬ (s.as.brkStart ≤ p ∧ p < s.as.brkEnd)

lemma Tidy.munmap (h : Tidy K s l)
    (hheap : s.HeapAvoids (alignDown addr pageSize) (alignUp (addr + length) pageSize)) :
    ∃ r t l', vmmMunmap addr length s = some (r, t) ∧ Tidy K t l' ∧ SpaceStep UserPage s t ∧
      (∀ p, (viewAt l p).isSome → ¬ (alignDown addr pageSize ≤ p ∧ p < alignUp (addr + length) pageSize) →
        (viewAt l' p).isSome) := by
  obtain ⟨r, t, l', ht, hl, hstep, hcase⟩ := vmmMunmap_spec h.listed addr length
  obtain ⟨-, rfl, rfl, -⟩ | ⟨-, hlt, ⟨rfl, rfl⟩ | ⟨hcut, hle, hmachine⟩⟩ := hcase
  · exact ⟨r, t, l', ht, h, .refl .., fun p hp _ => hp⟩
  · exact ⟨r, t, l', ht, h, .refl .., fun p hp _ => hp⟩
  have hcover : ∀ p, (viewAt l p).isSome → ¬ (alignDown addr pageSize ≤ p ∧ p < alignUp (addr + length) pageSize) →
      (viewAt l' p).isSome := fun p hp hnot =>
    viewAt_isSome.mpr (hcut.has (viewAt_isSome.mp hp) hnot)
  obtain ⟨L, hinv⟩ := h.inv
  obtain ⟨L', -, hinv'⟩ := hinv.step hl hstep
  refine ⟨r, t, l', ht, ⟨⟨L', hinv'⟩, hl, ?_⟩, hstep, hcover⟩
  rintro p hp (⟨hend, hentry⟩ | hbrk)
  · -- a page that is still mapped was mapped before, and it is not in the range
    have hold : entryAt s.mm.machine.mem s.as.pt p ≠ none := by
      obtain ⟨e, he⟩ := ne_none_iff_exists'.mp hentry
      rw [hmachine, hstep.pt] at he
      rw [unmapAreas_fewer _ _ _ _ _ p e he]
      exact some_ne_none e
    have hview := h.clean p hp (.inl ⟨hend, hold⟩)
    refine hcover p hview fun hin => hentry ?_
    refine hinv'.owns.entryAt_none (.inl (lowPage_index hend)) ?_
    rw [hmachine, hstep.pt]
    exact unmapAreas_resolve (alignDown_aligned addr) h.listed.linked.ok
      h.listed.ordered hp hin.1 hin.2 (hend.trans (by decide)) hview s.mm.machine
  rw [hstep.brkStart, hstep.brkEnd] at hbrk
  exact hcover p (h.clean p hp (.inr hbrk)) fun hin => hheap p hin.1 hin.2 hbrk

/-- What `vmm_mmap` achieves: a clean address space, with the new area at the returned address unless
it fails. -/
def Maps (K : ℕ → Prop) (start stop : ℕ) (prot flags : BitVec 32) (file : ℕ) (offset : BitVec 64)
    (r : Option (ℕ × Space P)) : Prop :=
  ∃ a t l', r = some (a, t) ∧ Tidy K t l' ∧ (a ≠ mapFailed → a = start ∧ ∃ q,
    (q, (⟨start, stop, vmmMmapFlags prot flags, prot, file, offset⟩ : Area)) ∈ l')

lemma Maps.fail
    (h : Tidy K s l) : Maps K start stop prot flags file offset (some (mapFailed, s)) :=
  ⟨mapFailed, s, l, rfl, h, fun hne => absurd rfl hne⟩

lemma Tidy.same (h : Tidy K s l) (hl : Listed t l) (hao : AreasOnly s t) : Tidy K t l :=
  h.step hl (hao.spaceStep (A := fun _ => False)) (fun _ hp => hp) fun _ hp => hp.elim

lemma Tidy.mmapArea (h : Tidy K s l)
    (hok : (⟨start, stop, vmmMmapFlags prot flags, prot, file, offset⟩ : Area).Ok)
    (hstop : start + length = stop) (hheap : s.HeapAvoids start stop) :
    Maps K start stop prot flags file offset (vmmMmapArea start stop length prot flags file offset s) := by
  obtain ⟨t, ht, hl, hao⟩ | ⟨q, l1, l2, t, rfl, hl, hstep, hcase⟩ := vmmMmapArea_spec h.listed length hok
  · rw [ht]
    exact .fail (h.same hl hao)
  have hmem := mem_append_right l1 (mem_cons_self (a := (q, (⟨start, stop, vmmMmapFlags prot flags, prot,
    file, offset⟩ : Area))) (l := l2))
  have htidy := h.step hl hstep (fun p hp => ?_) fun p hp =>
    ⟨hp.aligned hok.start_aligned, viewAt_isSome.mpr ⟨_, hmem, hp.bounds⟩⟩
  swap
  · obtain ⟨y, hy, hin⟩ := viewAt_isSome.mp hp
    refine viewAt_isSome.mpr ⟨y, ?_, hin⟩
    rcases mem_append.mp hy with hy | hy
    · exact mem_append_left _ hy
    · exact mem_append_right _ (mem_cons_of_mem _ hy)
  obtain ht | ht := hcase <;> rw [ht]
  · exact ⟨start, t, _, rfl, htidy, fun _ => ⟨rfl, q, hmem⟩⟩
  -- the pages could not be read in: the area is unmapped again
  have havoid : t.HeapAvoids (alignDown start pageSize) (alignUp (start + length) pageSize) := by
    rw [hstop, alignUp_of_aligned hok.stop_aligned hok.stop_le,
      alignDown_of_aligned hok.start_aligned ((hok.le.trans hok.stop_le).trans_lt (by decide))]
    intro p h1 h₂ hbrk
    rw [hstep.brkStart, hstep.brkEnd] at hbrk
    exact hheap p h1 h₂ hbrk
  obtain ⟨r, u, l', hu, htidy', -⟩ := htidy.munmap havoid
  rw [hu]
  exact .fail htidy'

lemma Tidy.heapAvoids (h : Tidy K s l) (has : start % pageSize = 0)
    (hgap : ∀ p, start ≤ p → p < stop → ¬ (viewAt l p).isSome) : s.HeapAvoids start stop := by
  obtain ⟨L, hinv⟩ := h.inv
  have hb := hinv.start_aligned
  intro p h1 h₂ hbrk
  simp only [pageSize] at has hb
  have hpage : (p / 4096 * 4096) % pageSize = 0 := Nat.mul_mod_left _ _
  refine hgap (p / 4096 * 4096) (by omega) (by omega) (h.clean _ hpage (.inr ⟨by omega, by omega⟩))

lemma Tidy.mmap (h : Tidy K s l) (prot : BitVec 32) (file : ℕ)
    (offset : BitVec 64) (hheap : hasFlag flags mapFixed = true →
      s.HeapAvoids (alignDown addr pageSize) (alignDown addr pageSize + alignUp length pageSize)) :
    ∃ start stop, Maps K start stop prot flags file offset (vmmMmap addr length prot flags file offset s) := by
  obtain hfail | ⟨start, -, hok, ⟨hfixed, rfl, he⟩ | ⟨-, hgap, he⟩⟩ :=
    vmmMmap_cases h.listed addr length prot flags file offset
  · rw [hfail]
    exact ⟨0, 0, Maps.fail h⟩
  · have hround : alignUp (alignDown addr pageSize + alignUp length pageSize) pageSize =
        alignDown addr pageSize + alignUp length pageSize := alignUp_of_aligned hok.stop_aligned hok.stop_le
    have hlow : alignDown (alignDown addr pageSize) pageSize = alignDown addr pageSize :=
      alignDown_of_aligned hok.start_aligned (alignDown_lt _ _ (by decide))
    have havoid := hheap hfixed
    rw [← hround] at havoid
    nth_rewrite 1 [← hlow] at havoid
    obtain ⟨r, t, l', ht, htidy, hstep, -⟩ := h.munmap havoid
    rw [he, ht, bind_some]
    split_ifs
    · exact ⟨0, 0, Maps.fail htidy⟩
    refine ⟨_, _, htidy.mmapArea hok rfl ?_⟩
    intro p h1 h₂ hbrk
    rw [hstep.brkStart, hstep.brkEnd] at hbrk
    exact hheap hfixed p h1 h₂ hbrk
  rw [he]
  exact ⟨_, _, h.mmapArea hok rfl (h.heapAvoids hok.start_aligned hgap)⟩

/-- The operation keeps the heap inside the areas: the heap grows inside areas, and no page of the
heap is unmapped or replaced. -/
def VmOp.HeapSafe : VmOp → Space P → Prop
  | mmap addr length _ flags .., s => hasFlag flags mapFixed = true →
      s.HeapAvoids (alignDown addr pageSize) (alignDown addr pageSize + alignUp length pageSize)
  | munmap addr length, s =>
      s.HeapAvoids (alignDown addr pageSize) (alignUp (addr + length) pageSize)
  | brk addr, s => ∀ p, p % pageSize = 0 → s.as.brkEnd ≤ p → p < alignUp addr pageSize → s.Covers p
  | fault .., _ => True

def HeapRun : List VmOp → Space P → Prop
  | [], _ => True
  | op :: ops, s => op.HeapSafe s ∧ ∀ t ∈ op.exec s, HeapRun ops t

lemma Tidy.fault (h : Tidy K s l) (addr : ℕ) (errorCode : BitVec 32) :
    ∃ r t, vmmHandlePageFault addr errorCode s = some (r, t) ∧ Tidy K t l := by
  obtain ⟨r, hr, hcase⟩ := vmmFindVma_spec h.listed addr
  rw [vmmHandlePageFault, hr]
  simp only [bind_eq_bind, bind_some]
  split_ifs with hr0
  · exact ⟨_, s, rfl, h⟩
  obtain ⟨a, ha, hin⟩ | ⟨h0, -⟩ := hcase
  swap
  · exact absurd h0 hr0
  obtain ⟨last, hseg⟩ := h.listed.seg
  obtain ⟨-, nx, pv, hcell⟩ := hseg.mem_some ha
  rw [hcell, bind_some]
  split_ifs
  · exact ⟨_, s, rfl, h⟩
  refine ⟨_, _, rfl, h.step (h.listed.setMachine _)
    ⟨handleFault_steps s.as.pt (alignDown addr pageSize) a.prot s.mm.machine, rfl, rfl, rfl⟩
    (fun _ hp => hp) ?_⟩
  rintro p rfl
  have hok := h.listed.ok _ ha
  have hmod := alignDown_aligned addr
  have hle := alignDown_le addr pageSize
  have hend := hok.stop_le
  have hlt : addr < 2 ^ 64 := hin.2.trans ((lt_of_le_of_lt hend (by decide)))
  have hdown := alignDown_two_pow hlt (show 12 ≤ 64 by decide)
  have hpage : alignDown addr pageSize = addr / 4096 * 4096 := hdown
  have hal := hok.start_aligned
  have hstart := hin.1
  simp only [pageSize] at hal
  exact ⟨hmod, viewAt_isSome.mpr ⟨_, ha, by dsimp only at hal ⊢; omega, hle.trans_lt hin.2⟩⟩

lemma Tidy.brk (h : Tidy K s l)
    (hin : ∀ p, p % pageSize = 0 → s.as.brkEnd ≤ p → p < alignUp addr pageSize → s.Covers p) :
    Tidy K (vmmBrk addr s).2 l := by
  obtain ⟨L, hinv⟩ := h.inv
  obtain ⟨L', -, hinv'⟩ := vmmBrk_owned hinv addr
  have hend := hinv.end_aligned
  refine ⟨⟨L', hinv'⟩, vmmBrk_listed h.listed addr, ?_⟩
  have hstep := vmmBrk_step addr s
  generalize vmmBrk addr s = r at hstep ⊢
  cases hstep with
  | same => exact h.clean
  | @grow b m _ _ _ hr =>
    have hcover : ∀ p, PageIn s.as.brkEnd (alignUp addr pageSize) p →
        p % pageSize = 0 ∧ (viewAt l p).isSome := fun p hp =>
      ⟨hp.aligned hend, (h.listed.covers_iff p).mp (hin p (hp.aligned hend) hp.bounds.1 hp.bounds.2)⟩
    have hgrow := h.step (h.listed.setMachine _)
      ⟨growHeap_steps s.as.pt (pageCount s.as.brkEnd (alignUp addr pageSize)) s.as.brkEnd
        s.mm.machine, rfl, rfl, rfl⟩ (fun _ hp => hp) hcover
    rw [hr] at hgrow
    cases b
    · exact hgrow.clean
    rintro p hp (hentry | hbrk)
    · exact hgrow.clean p hp (.inl hentry)
    by_cases hlt : p < s.as.brkEnd
    · exact h.clean p hp (.inr ⟨hbrk.1, hlt⟩)
    · exact (h.listed.covers_iff p).mp (hin p hp (le_of_not_gt hlt) hbrk.2)
  | shrink _ _ h2 =>
    rintro p hp (⟨hlt, hentry⟩ | hbrk)
    · obtain ⟨e, he⟩ := ne_none_iff_exists'.mp hentry
      refine h.clean p hp (.inl ⟨hlt, ?_⟩)
      rw [unmapRange_fewer s.as.pt (alignUp addr pageSize) s.as.brkEnd s.mm.machine p e he]
      exact some_ne_none e
    · exact h.clean p hp (.inr ⟨hbrk.1, hbrk.2.trans_le h2⟩)

lemma Tidy.exec (h : Tidy K s l) {op : VmOp} (hsafe : op.HeapSafe s) :
    ∃ t l', op.exec s = some t ∧ Tidy K t l' := by
  cases op with
  | mmap addr length prot flags file offset =>
    obtain ⟨start, stop, a, t, l', ht, htidy, -⟩ := h.mmap prot file offset hsafe
    exact ⟨t, l', by rw [VmOp.exec, ht, map_some], htidy⟩
  | munmap addr length =>
    obtain ⟨r, t, l', ht, htidy, -⟩ := h.munmap hsafe
    exact ⟨t, l', by rw [VmOp.exec, ht, map_some], htidy⟩
  | brk addr => exact ⟨_, l, rfl, h.brk hsafe⟩
  | fault addr errorCode =>
    obtain ⟨r, t, ht, htidy⟩ := h.fault addr errorCode
    exact ⟨t, l, by rw [VmOp.exec, ht, map_some], htidy⟩

lemma Tidy.run (h : Tidy K s l) {ops : List VmOp} (hops : HeapRun ops s) :
    ∃ t l', vmRun ops s = some t ∧ Tidy K t l' := by
  induction ops generalizing s l with
  | nil => exact ⟨s, l, rfl, h⟩
  | cons op ops ih =>
    obtain ⟨t, l', ht, htidy⟩ := h.exec hops.1
    obtain ⟨u, l'', hu, htidy'⟩ := ih htidy (hops.2 t ht)
    exact ⟨u, l'', by rw [vmRun, ht, bind_some, hu], htidy'⟩

lemma vmmCreateAddressSpace_tidy {k : ℕ} {mm : Mm P} {as : AddressSpace}
    (hk : KernelTable k mm.machine) (h : (vmmCreateAddressSpace k mm).1 = some as) :
    Tidy (· = 0) (⟨as, (vmmCreateAddressSpace k mm).2⟩ : Space P) [] := by
  have hK : ∀ f, f = 0 → ¬ FramePool.Free mm.machine.pool f ∧ NoKernelTable k mm.machine.mem f := by
    rintro f rfl
    exact ⟨hk.zero, hk.zero_table⟩
  have hinv := vmmCreateAddressSpace_owned hk hK h
  refine ⟨⟨∅, hinv⟩, vmmCreateAddressSpace_listed h, ?_⟩
  rintro p hp (⟨hlt, hentry⟩ | hbrk)
  · obtain ⟨e, he⟩ := ne_none_iff_exists'.mp hentry
    obtain ⟨l, hl, -⟩ := entryAt_some.mp he
    exact absurd (hinv.owns.cover p (.inl (lowPage_index hlt)) l hl) (Set.notMem_empty l)
  obtain ⟨r, rfl, -⟩ := vmmCreateAddressSpace_some hk.self h
  exact absurd hbrk.1 (not_le.mpr hbrk.2)

/-- **Main.** From a fresh address space, after operations that keep the heap inside the areas, a
successful `vmm_mmap` without `MAP_FIXED`, of a length that does not wrap when it is rounded up,
returns a page-aligned address at which the new area covers the length; no page there was mapped or
in the heap before. -/
theorem mmap_fresh {k : ℕ} {mm : Mm P} {as : AddressSpace} (hk : KernelTable k mm.machine)
    (hnew : (vmmCreateAddressSpace k mm).1 = some as) {ops : List VmOp}
    (hops : HeapRun ops (⟨as, (vmmCreateAddressSpace k mm).2⟩ : Space P)) {addr length : ℕ}
    {prot flags : BitVec 32} {file : ℕ} {offset : BitVec 64} (hfixed : hasFlag flags mapFixed = false)
    (hlen : length ≤ 2 ^ 64 - pageSize) :
    ∃ s a t l', vmRun ops (⟨as, (vmmCreateAddressSpace k mm).2⟩ : Space P) = some s ∧
      vmmMmap addr length prot flags file offset s = some (a, t) ∧ Listed t l' ∧
      (a ≠ mapFailed → a % pageSize = 0 ∧
        (∃ q stop, (q, (⟨a, stop, vmmMmapFlags prot flags, prot, file, offset⟩ : Area)) ∈ l' ∧ a + length ≤ stop) ∧
        ∀ p, a ≤ p → p < a + length → entryAt s.mm.machine.mem s.as.pt p = none ∧
          ¬ (s.as.brkStart ≤ p ∧ p < s.as.brkEnd)) := by
  obtain ⟨s, l, hs, h⟩ := (vmmCreateAddressSpace_tidy hk hnew).run hops
  obtain ⟨L, hinv⟩ := h.inv
  obtain hfail | ⟨start, -, hok, ⟨hfixed', -⟩ | ⟨-, hgap, he⟩⟩ :=
    vmmMmap_cases h.listed addr length prot flags file offset
  · exact ⟨s, mapFailed, s, l, hs, hfail, h.listed, fun hne => absurd rfl hne⟩
  · rw [hfixed] at hfixed'
    exact absurd hfixed' Bool.false_ne_true
  have hround : length ≤ alignUp length pageSize := by
    have hup := alignUp_two_pow (x := length) (k := 12) (by simp only [pageSize] at hlen; omega) (by norm_num)
    have hpage : alignUp length pageSize = alignUp length (2 ^ 12) := rfl
    rw [hpage, hup]
    omega
  have has : start % pageSize = 0 := hok.start_aligned
  have hend : start + alignUp length pageSize ≤ userSpaceEnd := hok.stop_le
  have havoid := h.heapAvoids has hgap
  obtain ⟨a, t, l', ht, htidy, harea⟩ := h.mmapArea hok rfl havoid
  refine ⟨s, a, t, l', hs, he.trans ht, htidy.listed, fun hne => ?_⟩
  obtain ⟨rfl, q, hq⟩ := harea hne
  refine ⟨has, ⟨q, _, hq, Nat.add_le_add_left hround a⟩, fun p h₁ h₂ => ?_⟩
  have hlt : p < a + alignUp length pageSize := h₂.trans_le (Nat.add_le_add_left hround a)
  refine ⟨?_, havoid p h₁ hlt⟩
  -- the entry of `p` is that of its page, which lies in the gap too
  have hpage : (p / 4096 * 4096) / 4096 = p / 4096 := Nat.mul_div_left _ (by decide)
  rw [← entryAt_page hpage]
  by_contra hentry
  simp only [pageSize] at has
  refine hgap (p / 4096 * 4096) (by omega) (by omega) (h.clean _ (Nat.mul_mod_left ..) (.inl ⟨by omega, hentry⟩))

theorem mmap_fresh_small : HeapRun [.mmap 0 0x3000 protWrite mapAnonymous 0 0, .fault 0x10001000 2]
      (⟨freshAddressSpace 2, (vmmCreateAddressSpace 1 smallMm).2⟩ : Space PmmPool) ∧
    ∃ s t, vmRun [.mmap 0 0x3000 protWrite mapAnonymous 0 0, .fault 0x10001000 2]
        ⟨freshAddressSpace 2, (vmmCreateAddressSpace 1 smallMm).2⟩ = some s ∧
      vmmMmap 0 0x1234 protWrite mapAnonymous 0 0 s = some (0x10003000, t) ∧
      ∀ p, 0x10003000 ≤ p → p < 0x10003000 + 0x1234 → entryAt s.mm.machine.mem s.as.pt p = none := by
  have hrun : HeapRun [.mmap 0 0x3000 protWrite mapAnonymous 0 0, .fault 0x10001000 2]
      (⟨freshAddressSpace 2, (vmmCreateAddressSpace 1 smallMm).2⟩ : Space PmmPool) :=
    ⟨fun h => absurd h (by decide), fun _ _ => ⟨trivial, fun _ _ => trivial⟩⟩
  obtain ⟨s, a, t, l', hs, ht, -, hfresh⟩ := @mmap_fresh PmmPool _ 1 smallMm (freshAddressSpace 2)
    smallMachine_kernelTable (by decide +kernel) _ hrun 0 0x1234 protWrite mapAnonymous 0 0
    (by decide) (by decide)
  have haddr : ((vmRun [.mmap 0 0x3000 protWrite mapAnonymous 0 0, .fault 0x10001000 2]
      ⟨freshAddressSpace 2, (vmmCreateAddressSpace 1 smallMm).2⟩).bind fun s : Space PmmPool =>
        (vmmMmap 0 0x1234 protWrite mapAnonymous 0 0 s).map Prod.fst) = some 0x10003000 := by
    decide +kernel
  rw [hs, bind_some, ht, map_some] at haddr
  cases haddr
  exact ⟨hrun, s, t, hs, ht, fun p h₁ h₂ => ((hfresh (by decide)).2.2 p h₁ h₂).1⟩

theorem mmap_takes_heap : (vmmCreateAddressSpace 1 smallMm).1 = some (freshAddressSpace 2) ∧
    ((vmRun [.brk (userHeapBase + 0x1000)]
      ⟨freshAddressSpace 2, (vmmCreateAddressSpace 1 smallMm).2⟩).bind fun s : Space PmmPool =>
        (vmmMmap 0 0x1000 protWrite mapAnonymous 0 0 s).map fun r =>
          (r.1, (entryAt s.mm.machine.mem s.as.pt r.1).isSome, s.as.brkStart, s.as.brkEnd)) =
      some (userHeapBase, true, userHeapBase, userHeapBase + 0x1000) := by
  decide +kernel

end Obelisk
