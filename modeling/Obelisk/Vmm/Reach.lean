import Obelisk.Vmm.Brk
import Obelisk.Vmm.Run

/-!
# Ownership over whole runs

From its creation on, an address space owns the frames of its user pages and of its heap, whatever
operations follow (`vmRun_owned`).
-/

namespace Obelisk

open KLib Relation Function FramePool

variable {p : List ℕ} {f : ℕ}
variable {k : ℕ} {as : AddressSpace} {l : List (ℕ × Area)}

def OwnedAddr (as : AddressSpace) (v : ℕ) : Prop :=
  pml4Index v < 256 ∨ (as.brkStart ≤ v ∧ v < as.brkEnd)

section Model

variable {P : Type} [FramePool P]

/-- The invariant of an address space. -/
structure SpaceInv (K : ℕ → Prop) (L : Set Loc) (s : Space P) : Prop where
  areas : ∃ l, Listed s l
  owns : Owns s.as.pt K (OwnedAddr s.as) L s.mm.machine
  start_aligned : s.as.brkStart % pageSize = 0
  end_aligned : s.as.brkEnd % pageSize = 0
  brk_le : s.as.brkStart ≤ s.as.brkEnd
  brk_lt : s.as.brkEnd < 2 ^ 64

/-- A later state of the same address space. -/
structure Reached (K : ℕ → Prop) (L L' : Set Loc) (s t : Space P) : Prop where
  steps : OwnSteps s.as.pt K (fun _ => True) (s.mm.machine, L) (t.mm.machine, L')
  pt : t.as.pt = s.as.pt
  brkStart : t.as.brkStart = s.as.brkStart

lemma Reached.refl (K : ℕ → Prop) (L : Set Loc) (s : Space P) : Reached K L L s s :=
  ⟨.refl, rfl, rfl⟩

lemma Reached.trans {K : ℕ → Prop} {L1 L2 L3 : Set Loc} {s t u : Space P}
    (h₁ : Reached K L1 L2 s t) (h₂ : Reached K L2 L3 t u) : Reached K L1 L3 s u :=
  ⟨h₁.steps.trans (h₁.pt ▸ h₂.steps), h₂.pt.trans h₁.pt, h₂.brkStart.trans h₁.brkStart⟩

section Heap

variable {root n addr : ℕ} {K D : ℕ → Prop} {L : Set Loc} {m m' : Machine P}

lemma growHeap_owned {b : Bool} (h : Owns root K D L m) (ha : addr % pageSize = 0)
    (hlt : addr + n * pageSize ≤ 2 ^ 64) (hr : growHeap root n addr m = (b, m')) :
    ∃ L', OwnSteps root K (fun _ => True) (m, L) (m', L') ∧ (b = true →
      Owns root K (fun v => D v ∨ (addr ≤ v ∧ v < addr + n * pageSize)) L' m') := by
  induction n generalizing addr m L D with
  | zero =>
    cases hr
    refine ⟨L, .refl, fun _ => h.mono fun v hv => hv.resolve_right ?_⟩
    omega
  | succ n ih =>
    have hshift : addr + pageSize + n * pageSize = addr + (n + 1) * pageSize := by
      rw [add_mul, one_mul]; omega
    have hlt' := lt_of_pages hlt
    rcases growHeap_succ hr with ⟨rfl, hfail⟩ | ⟨m1, hpage, hrest⟩
    · exact ⟨L, hfail.ownSteps h ha hlt', fun hb => by cases hb⟩
    obtain ⟨-, -, l, hl, hsteps⟩ := hpage.entries (A := fun _ => True) h ha hlt'
    have hown : Owns root K D (insert l L) m1 := (hsteps trivial).owns h
    obtain ⟨L', hsteps', hown'⟩ := ih (hown.cover_page hl (Set.mem_insert l L))
      (by rwa [Nat.add_mod_right]) (by rwa [hshift]) hrest
    refine ⟨L', (hsteps trivial).trans hsteps', fun hb => (hown' hb).mono ?_⟩
    rintro v (hv | ⟨h₁, h₂⟩)
    · exact .inl (.inl hv)
    by_cases hv : v < addr + pageSize
    · refine .inl (.inr ?_)
      simp only [pageSize] at ha hv
      omega
    · exact .inr ⟨by omega, by rwa [hshift]⟩

end Heap

variable {K : ℕ → Prop} {L : Set Loc} {s : Space P}

lemma vmmBrk_owned (h : SpaceInv K L s) (addr : ℕ) :
    ∃ L', Reached K L L' s (vmmBrk addr s).2 ∧ SpaceInv K L' (vmmBrk addr s).2 := by
  obtain ⟨l, hl⟩ := h.areas
  have hlist : ∃ l, Listed (vmmBrk addr s).2 l := ⟨l, vmmBrk_listed hl addr⟩
  have hmod := alignUp_mod addr
  have hlt := alignUp_lt addr
  have hend := h.end_aligned
  have hstep := vmmBrk_step addr s
  generalize vmmBrk addr s = r at hlist hstep ⊢
  cases hstep with
  | same => exact ⟨L, .refl K L s, h⟩
  | @grow b m' _ h1 h2 hr =>
    have hcount := pageCount_mul hend hmod h2.le
    obtain ⟨L', hsteps, hown⟩ := growHeap_owned h.owns hend (by rw [hcount]; exact hlt.le) hr
    cases b with
    | false =>
      exact ⟨L', ⟨hsteps, rfl, rfl⟩, hlist, hsteps.owns h.owns, h.start_aligned, hend, h.brk_le, h.brk_lt⟩
    | true =>
      refine ⟨L', ⟨hsteps, rfl, rfl⟩, hlist, (hown rfl).mono ?_, h.start_aligned, hmod,
        by exact h.brk_le.trans h2.le, hlt⟩
      rintro v (hv | ⟨h₁, h₂⟩)
      · exact .inl (.inl hv)
      rw [hcount]
      by_cases hv : v < s.as.brkEnd
      · exact .inl (.inr ⟨h₁, hv⟩)
      · exact .inr ⟨by omega, h₂⟩
  | shrink _ h1 h2 =>
    have hpages := unmapRange_steps s.as.pt (alignUp addr pageSize) s.as.brkEnd s.mm.machine
    have hin : ∀ a, PageIn (alignUp addr pageSize) s.as.brkEnd a →
        a % pageSize = 0 ∧ a < 2 ^ 64 ∧ OwnedAddr s.as a := by
      intro a ha
      obtain ⟨h₁, h₂⟩ := ha.bounds
      exact ⟨ha.aligned hmod, h₂.trans h.brk_lt, .inr ⟨by omega, h₂⟩⟩
    obtain ⟨L', hsteps⟩ := PageSteps.ownSteps h.owns hin hpages
    refine ⟨L', ⟨hsteps.mono fun _ _ => trivial, rfl, rfl⟩, hlist, (hsteps.owns h.owns).mono ?_,
      h.start_aligned, hmod, h1, hlt⟩
    rintro v (hv | ⟨h₁, h₂⟩)
    · exact .inl hv
    · exact .inr ⟨h₁, h₂.trans_le h2⟩

lemma SpaceInv.step {t : Space P} (h : SpaceInv K L s) (hl : Listed t l)
    (hstep : SpaceStep UserPage s t) : ∃ L', Reached K L L' s t ∧ SpaceInv K L' t := by
  have hin : ∀ a, UserPage a → a % pageSize = 0 ∧ a < 2 ^ 64 ∧ OwnedAddr s.as a := fun a ha =>
    ⟨ha.1, ha.2.trans (by decide), .inl (lowPage_index ha.2)⟩
  obtain ⟨L', hsteps⟩ := PageSteps.ownSteps h.owns hin hstep.machine
  refine ⟨L', ⟨hsteps.mono fun _ _ => trivial, hstep.pt, hstep.brkStart⟩, ⟨l, hl⟩, ?_, ?_, ?_, ?_, ?_⟩
  · rw [hstep.pt]
    refine (hsteps.owns h.owns).mono fun v hv => ?_
    rwa [OwnedAddr, hstep.brkStart, hstep.brkEnd] at hv
  · rw [hstep.brkStart]; exact h.start_aligned
  · rw [hstep.brkEnd]; exact h.end_aligned
  · rw [hstep.brkStart, hstep.brkEnd]; exact h.brk_le
  · rw [hstep.brkEnd]; exact h.brk_lt

lemma Returns.owned {ρ : Type} {G : Prop} {r : Option (ρ × Space P)}
    (h : SpaceInv K L s) (hr : Returns UserPage s l G r) :
    ∃ t L', r.map Prod.snd = some t ∧ Reached K L L' s t ∧ SpaceInv K L' t := by
  obtain ⟨x, t, l', rfl, hl, hstep, -⟩ := hr
  obtain ⟨L', hinv⟩ := h.step hl hstep
  exact ⟨t, L', rfl, hinv⟩

lemma exec_owned (h : SpaceInv K L s) (op : VmOp) :
    ∃ t L', op.exec s = some t ∧ Reached K L L' s t ∧ SpaceInv K L' t := by
  obtain ⟨l, hl⟩ := h.areas
  cases op with
  | mmap addr length prot flags file offset =>
    exact Returns.owned h (vmmMmap_returns hl addr length prot flags file offset)
  | munmap addr length => exact Returns.owned h (vmmMunmap_returns hl addr length True)
  | brk addr =>
    obtain ⟨L', hreach, hinv⟩ := vmmBrk_owned h addr
    exact ⟨_, L', rfl, hreach, hinv⟩
  | fault addr errorCode =>
    exact Returns.owned h (vmmHandlePageFault_returns hl addr errorCode True)

lemma vmRun_owned (h : SpaceInv K L s) (ops : List VmOp) :
    ∃ t L', vmRun ops s = some t ∧ Reached K L L' s t ∧ SpaceInv K L' t := by
  induction ops generalizing s L with
  | nil => exact ⟨s, L, rfl, .refl K L s, h⟩
  | cons op ops ih =>
    obtain ⟨t, L1, ht, hreach, hinv⟩ := exec_owned h op
    obtain ⟨u, L2, hu, hreach', hinv'⟩ := ih hinv
    exact ⟨u, L2, by rw [vmRun, ht, Option.bind_some, hu], hreach.trans hreach', hinv'⟩

def NoKernelTable (k : ℕ) (mem : PhysMem) (f : ℕ) : Prop :=
  ∀ p, IsPath p → KernelPath p → tableAt mem k p ≠ some f

/-- The kernel's page table `k`: the tables of its upper half are in use and separate by level, and
it is not one of them. Frame `0` is reserved. -/
structure KernelTable (k : ℕ) (m : Machine P) : Prop where
  used : ∀ p f, IsPath p → KernelPath p → tableAt m.mem k p = some f → ¬ Free m.pool f
  level : ∀ p q f, IsPath p → IsPath q → KernelPath p → KernelPath q →
    tableAt m.mem k p = some f → tableAt m.mem k q = some f → p.length = q.length
  huge : ∀ p f i, IsPath (p ++ [i]) → KernelPath p → tableAt m.mem k p = some f →
    pteIsHuge (m.mem f i) = true → pteIsPresent (m.mem f i) = true
  self : ¬ Free m.pool k
  self_table : NoKernelTable k m.mem k
  zero : ¬ Free m.pool 0
  zero_table : NoKernelTable k m.mem 0

def newPml4 (k r : ℕ) (mem : PhysMem) : PhysMem :=
  update mem r fun i => if 256 ≤ i ∧ i < 512 then mem k i else 0#64

lemma vmmCreateAddressSpace_some {mm : Mm P} (hself : ¬ Free mm.machine.pool k)
    (h : (vmmCreateAddressSpace k mm).1 = some as) :
    ∃ r, as = freshAddressSpace r ∧ (allocPage mm.machine.pool).1 = r * 4096 ∧ r ≠ 0 ∧ Free mm.machine.pool r ∧
      (vmmCreateAddressSpace k mm).2.machine = ⟨(allocPage mm.machine.pool).2, newPml4 k r mm.machine.mem⟩ ∧
      (vmmCreateAddressSpace k mm).2.vmas = mm.vmas := by
  have hkz : ∀ x : Mm P, (kzalloc x).2.machine = x.machine ∧ (kzalloc x).2.vmas = x.vmas := by
    intro x
    unfold kzalloc
    cases x.kallocs <;> exact ⟨rfl, rfl⟩
  have hmach := (hkz (kzalloc mm).2).1.trans (hkz mm).1
  unfold vmmCreateAddressSpace at h ⊢
  dsimp only at h ⊢
  split_ifs at h ⊢ with h₁ h₂ h3
  cases h
  unfold mmuCreatePageTable at h3 ⊢
  rw [hmach] at h3 ⊢
  dsimp only at h3 ⊢
  have h0 : (allocPage mm.machine.pool).1 ≠ 0 := by
    intro he
    rw [if_pos he] at h3
    exact h3 rfl
  rw [if_neg h0]
  obtain ⟨r, hr, -, hfree, -⟩ := allocPage_fresh h0
  rw [hr, physToPfn_frame]
  refine ⟨r, rfl, rfl, by omega, hfree, ?_, (hkz _).2.trans (hkz mm).2⟩
  have hne : k ≠ r := fun he => hself (he ▸ hfree)
  refine congrArg (Machine.mk _) ?_
  rw [newPml4, PhysMem.zeroFrame, update_idem]
  refine congrArg (update mm.machine.mem r) (funext fun i => ?_)
  rw [update_of_ne hne, update_self]

lemma tableAt_row {mem mem' : PhysMem} {r : ℕ}
    (hrow : ∀ i, 256 ≤ i → i < 512 → pteIsPresent (mem k i) = true → mem' r i = mem k i)
    (hrest : ∀ p f, IsPath p → KernelPath p → tableAt mem k p = some f → mem' f = mem f)
    (hp : IsPath p) (hkp : KernelPath p) (ht : tableAt mem k p = some f) :
    tableAt mem' r p = some f := by
  induction p using List.reverseRecOn generalizing f with
  | nil => obtain ⟨i, hi, -⟩ := hkp; cases hi
  | append_singleton p i ih =>
    obtain ⟨f', hf', hn⟩ := tableAt_append_some.mp ht
    cases p with
    | nil =>
      cases hf'
      obtain ⟨j, hj, h256⟩ := hkp
      cases hj
      refine tableAt_append_some.mpr ⟨r, rfl, ?_⟩
      rwa [hrow i h256 (hp.2 i (by simp)) (nextTable_some.mp hn).1]
    | cons j p =>
      refine tableAt_append_some.mpr ⟨f', ih hp.left hkp hf', ?_⟩
      rwa [hrest _ f' hp.left hkp hf']

section Create

variable {k r : ℕ} {m : Machine P} (hk : KernelTable k m) (hr : Free m.pool r)
include hk hr

lemma tableAt_newPml4 (hp : IsPath p) (ht : tableAt (newPml4 k r m.mem) r p = some f) :
    (p = [] ∧ f = r) ∨ (KernelPath p ∧ tableAt m.mem k p = some f) := by
  induction p using List.reverseRecOn generalizing f with
  | nil =>
    cases ht
    exact .inl ⟨rfl, rfl⟩
  | append_singleton p i ih =>
    obtain ⟨f', hf', hn⟩ := tableAt_append_some.mp ht
    refine .inr ?_
    rcases ih hp.left hf' with ⟨rfl, rfl⟩ | ⟨hkp, hold⟩
    · rw [newPml4, update_self] at hn
      split_ifs at hn with hi
      · exact ⟨⟨i, rfl, hi.1⟩, tableAt_append_some.mpr ⟨k, rfl, hn⟩⟩
      rw [nextTable_some, pteIsPresent_zero] at hn
      cases hn.1
    have hne : f' ≠ r := fun he => hk.used p f' hp.left hkp hold (he ▸ hr)
    rw [newPml4, update_of_ne hne] at hn
    exact ⟨hkp.append _, tableAt_append_some.mpr ⟨f', hold, hn⟩⟩

lemma tableAt_newPml4_of (hp : IsPath p) (hkp : KernelPath p)
    (ht : tableAt m.mem k p = some f) : tableAt (newPml4 k r m.mem) r p = some f := by
  refine tableAt_row (fun i h₁ h₂ _ => ?_) (fun q f' hq hkq hf' => ?_) hp hkp ht
  · rw [newPml4, update_self, if_pos ⟨h₁, h₂⟩]
  have hne : f' ≠ r := fun he => hk.used q f' hq hkq hf' (he ▸ hr)
  rw [newPml4, update_of_ne hne]

lemma newPml4_owns {K D : ℕ → Prop} {pool : P} (hpool : ∀ f, Free pool f → Free m.pool f) (hroot : ¬ Free pool r)
    (hK : ∀ f, K f → ¬ Free m.pool f ∧ NoKernelTable k m.mem f)
    (hD : ∀ v, D v → pml4Index v < 256) :
    Owns r K D ∅ (⟨pool, newPml4 k r m.mem⟩ : Machine P) := by
  have hcase := fun p f => tableAt_newPml4 hk hr (p := p) (f := f)
  have hne : ∀ {p f}, IsPath p → KernelPath p → tableAt m.mem k p = some f → f ≠ r :=
    fun hp hkp ht he => hk.used _ _ hp hkp ht (he ▸ hr)
  refine ⟨?_, ?_, ?_, ?_, by simp, by simp, ?_, ?_, ?_⟩
  · intro p f hp hf hfree
    rcases hcase p f hp hf with ⟨-, rfl⟩ | ⟨hkp, hold⟩
    · exact hroot hfree
    · exact hk.used p f hp hkp hold (hpool f hfree)
  · intro p q f hp hq h₁ h₂
    rcases hcase p f hp h₁ with ⟨rfl, rfl⟩ | ⟨k1, o1⟩ <;>
      rcases hcase q _ hq h₂ with ⟨rfl, e⟩ | ⟨k2, o2⟩
    · rfl
    · exact absurd rfl (hne hq k2 o2)
    · exact absurd e (hne hp k1 o1)
    · exact hk.level p q f hp hq k1 k2 o1 o2
  · intro p q f hp hq h₁ h₂
    rcases hcase p f hp h₁ with ⟨rfl, rfl⟩ | ⟨k1, o1⟩ <;>
      rcases hcase q _ hq h₂ with ⟨rfl, e⟩ | ⟨k2, o2⟩
    · exact .inl rfl
    · exact absurd rfl (hne hq k2 o2)
    · exact absurd e (hne hp k1 o1)
    · exact .inr ⟨k1, k2⟩
  · intro p f i hp h0 hf hh
    rcases hcase p f hp.left hf with ⟨rfl, -⟩ | ⟨hkp, hold⟩
    · exact absurd rfl h0
    have hrow : newPml4 k r m.mem f i = m.mem f i := by
      rw [newPml4, update_of_ne (hne hp.left hkp hold)]
    rw [show (⟨pool, newPml4 k r m.mem⟩ : Machine P).mem f i = m.mem f i from hrow] at hh ⊢
    exact hk.huge p f i hp hkp hold hh
  · rintro v hv l ⟨hl, -⟩
    have habs : pteIsPresent (newPml4 k r m.mem r (pml4Index v)) = false := by
      rw [newPml4, update_self, if_neg fun hi => ?_]
      · exact pteIsPresent_zero
      have := hD v hv
      omega
    rw [walkLoc_of_none (p := []) ⟨_, rfl⟩ rfl habs (.inl rfl)] at hl
    cases hl
  · exact fun f hf hfree => (hK f hf).1 (hpool f hfree)
  intro f hf p hp ht
  rcases hcase p f hp ht with ⟨-, rfl⟩ | ⟨hkp, hold⟩
  · exact (hK f hf).1 hr
  · exact (hK f hf).2 p hp hkp hold

end Create

lemma vmmCreateAddressSpace_owned {mm : Mm P} {K : ℕ → Prop} (hk : KernelTable k mm.machine)
    (hK : ∀ f, K f → ¬ Free mm.machine.pool f ∧ NoKernelTable k mm.machine.mem f)
    (h : (vmmCreateAddressSpace k mm).1 = some as) :
    SpaceInv K ∅ (⟨as, (vmmCreateAddressSpace k mm).2⟩ : Space P) := by
  have hlist := vmmCreateAddressSpace_listed h
  obtain ⟨r, rfl, hphys, h0, hfree, hm, -⟩ := vmmCreateAddressSpace_some hk.self h
  have hheap : userHeapBase % pageSize = 0 := by decide
  refine ⟨⟨[], hlist⟩, ?_, hheap, hheap, le_refl _, show userHeapBase < 2 ^ 64 by decide⟩
  show Owns r K _ ∅ (vmmCreateAddressSpace k mm).2.machine
  rw [hm]
  refine newPml4_owns hk hfree (fun f => allocPage_mono) ?_ hK ?_
  · obtain ⟨r', hr', -, -, ht⟩ := allocPage_fresh (p := mm.machine.pool) (by omega)
    rwa [show r = r' by omega]
  rintro v (hv | ⟨h₁, h₂⟩)
  · exact hv
  · exact absurd h₁ (not_le.mpr h₂)

end Model

end Obelisk
