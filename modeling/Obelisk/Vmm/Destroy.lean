import Obelisk.Vmm.Reach
import Obelisk.Vmm.Syscall

/-!
# Destroying an address space

`vmm_destroy_address_space` gives back the PML4 and nothing else.
-/

namespace Obelisk

open KLib Relation FramePool CountedPool

variable {mem : PhysMem} {f i n phys : ℕ} {l : List (ℕ × Area)}

def NoUserTable (root : ℕ) (mem : PhysMem) : Prop := ∀ i < 256, pteIsPresent (mem root i) = false

lemma top_present {root : ℕ} {p : List ℕ}
    (h : tableAt mem root (i :: p) = some f) : pteIsPresent (mem root i) = true := by
  have hne : tableAt mem root ([] ++ [i]) ≠ none := tableAt_initial (q := p) h
  obtain ⟨t, ht⟩ := Option.ne_none_iff_exists'.mp hne
  obtain ⟨g, hg, hn⟩ := tableAt_append_some.mp ht
  cases hg
  exact (nextTable_some.mp hn).1

lemma NoUserTable.entryAt {root v : ℕ} (h : NoUserTable root mem)
    (hv : pml4Index v < 256) : entryAt mem root v = none := by
  rw [Obelisk.entryAt, walkLoc_of_none (p := []) ⟨_, rfl⟩ rfl (h _ hv) (.inl rfl)]
  rfl

section Quiet

variable {P : Type} [CountedPool P] {root virt : ℕ} {K D A : ℕ → Prop} {L : Set Loc} {m m' : Machine P}

lemma Extends.quiet (hx : Extends root virt m m') (h : Owns root K D L m) (hK : K 0)
    (hv : pml4Index virt < 256) (hq : NoUserTable root m'.mem) : m'.pool = m.pool := by
  induction hx with
  | refl => rfl
  | @noFrame m1 hx hz ih =>
    have hown : Owns root K D L m1 := (Extends.ownSteps (A := fun _ => False) hx).owns h
    exact (allocPage_empty (hown.pinned_used 0 hK) hz).2.trans (ih hq)
  | @table m1 m2 p f i g hx hp hn _ =>
    have hown : Owns root K D L m1 := (Extends.ownSteps (A := fun _ => False) hx).owns h
    have ht := hn.tableAt_self hown.used
    obtain ⟨q, hq'⟩ := hp
    -- the first index of the new table's path is that of `virt`
    cases hpi : p ++ [i] with
    | nil => simp at hpi
    | cons j p' =>
      rw [hpi] at ht hq'
      obtain rfl : j = pml4Index virt := (List.cons.inj hq').1
      have := top_present ht
      rw [hq _ hv] at this
      cases this

lemma mmuMap_quiet {flags : BitVec 64} {r : ℤ} (h : Owns root K D L m) (hK : K 0)
    (hv : pml4Index (alignDown virt pageSize) < 256)
    (hr : mmuMap root virt phys flags m = (r, m')) (hq : NoUserTable root m'.mem) :
    r ≠ 0 ∧ m'.pool = m.pool := by
  have hres := mmuMap_result virt phys flags h.used
  rw [hr] at hres
  generalize pteMake (alignDown phys pageSize) (flags ||| ptePresent) = w at hres
  cases hres with
  | noMem hx _ hz => exact ⟨by decide, (hx.noFrame hz).quiet h hK hv hq⟩
  | exist hx _ => exact ⟨by decide, hx.quiet h hK hv hq⟩
  | @ok m1 l hx hl habs =>
    -- a mapped page has a table in the user half
    exfalso
    have hown : Owns root K D L m1 := (Extends.ownSteps (A := fun _ => False) hx).owns h
    have hlast := lastLevel_of_absent hown.huge hl habs
    have ht := (walkLoc_lastLevel hown.level hlast hl).1
    rw [← tableAt_write hown.level hlast w (isPath_pathOf _)] at ht
    have := top_present ht
    rw [hq _ hv] at this
    cases this

/-! ## The frames of the allocator stay the same -/

lemma pagingDescend_managed (create : Bool) (flags : BitVec 64) (e : Loc) (hf : Managed m.pool f) :
    Managed (pagingDescend create flags e m).2.pool f := by
  unfold pagingDescend pagingGetOrCreate
  dsimp only
  split_ifs
  · exact hf
  · exact hf
  · exact managed_allocPage hf
  · exact managed_allocPage hf
  · exact hf

lemma pagingWalk_managed (root virt : ℕ) (create : Bool) (hf : Managed m.pool f) :
    Managed (pagingWalk root virt create m).2.pool f := by
  unfold pagingWalk
  dsimp only
  have h₁ := pagingDescend_managed create (walkFlags virt) (root, pml4Index virt) hf
  generalize pagingDescend create (walkFlags virt) (root, pml4Index virt) m = r at h₁ ⊢
  obtain ⟨_ | pdpt, m1⟩ := r
  · exact h₁
  dsimp only
  split_ifs
  · exact h₁
  have h₂ := pagingDescend_managed create (walkFlags virt) (pdpt, pdptIndex virt) h₁
  generalize pagingDescend create (walkFlags virt) (pdpt, pdptIndex virt) m1 = r at h₂ ⊢
  obtain ⟨_ | pd, m2⟩ := r
  · exact h₂
  dsimp only
  split_ifs
  · exact h₂
  have h3 := pagingDescend_managed create (walkFlags virt) (pd, pdIndex virt) h₂
  generalize pagingDescend create (walkFlags virt) (pd, pdIndex virt) m2 = r at h3 ⊢
  obtain ⟨_ | pt, m3⟩ := r <;> exact h3

lemma mmuMap_managed (root virt phys : ℕ) (flags : BitVec 64) (hf : Managed m.pool f) :
    Managed (mmuMap root virt phys flags m).2.pool f := by
  unfold mmuMap
  dsimp only
  have hw := pagingWalk_managed root (alignDown virt pageSize) true hf
  generalize pagingWalk root (alignDown virt pageSize) true m = r at hw ⊢
  obtain ⟨_ | l, m1⟩ := r
  · exact hw
  dsimp only
  split_ifs <;> exact hw

lemma mmuUnmap_pool (root virt : ℕ) (m : Machine P) : (mmuUnmap root virt m).2.pool = m.pool := by
  rw [mmuUnmap_eq]
  cases walkLoc m.mem root (alignDown virt pageSize) with
  | none => rfl
  | some l =>
    dsimp only
    split_ifs <;> rfl

lemma PageStep.managed (hs : PageStep root A m m') (hf : Managed m.pool f) :
    Managed m'.pool f := by
  have halloc : Managed m.afterAlloc.pool f := managed_allocPage hf
  cases hs with
  | @unmap a ha =>
    unfold unmapPage
    dsimp only
    split_ifs
    · exact managed_freePage (by rwa [mmuUnmap_pool])
    · exact hf
  | noFrame _ => exact halloc
  | @mapFail m1 a phys prot data r _ _ _ hr _ =>
    have := mmuMap_managed root a phys (vmmProtToPteFlags prot)
      (m := m.afterAlloc.fill (physToPfn phys) data) halloc
    rw [hr] at this
    exact managed_freePage this
  | @map m1 a phys prot data data' _ _ _ hr =>
    have := mmuMap_managed root a phys (vmmProtToPteFlags prot)
      (m := m.afterAlloc.fill (physToPfn phys) data) halloc
    rwa [hr] at this
  | cow data _ _ _ _ =>
    exact mmuMap_managed _ _ _ _ (by rwa [mmuUnmap_pool])

lemma PageSteps.managed (hs : PageSteps root A m m')
    (hf : Managed m.pool f) : Managed m'.pool f := by
  induction hs with
  | refl => exact hf
  | tail _ hstep ih => exact hstep.managed ih

lemma count_alloc_free {p q : P} (hphys : (allocPage p).1 = phys) (h0 : phys ≠ 0) (hq : q = (allocPage p).2) :
    count (freePage phys q) = count p := by
  obtain ⟨g, hg, -, hfree, htaken⟩ := allocPage_fresh (hphys ▸ h0)
  have hdiv : phys / 4096 = g := by omega
  have hm : Managed q (phys / 4096) := by
    rw [hq, hdiv]
    exact managed_allocPage (managed_of_free hfree)
  have hone := allocPage_count (hphys ▸ h0)
  rwa [freePage_count hm (by rw [hq, hdiv]; exact htaken), hq]

section

variable (h : Owns root K D L m) (hK : K 0)
include h hK

/-- **A page action that creates no table** in the user half gives back what it takes. -/
theorem PageStep.quiet (hA : ∀ a, A a → a % pageSize = 0 ∧ a < 2 ^ 64 ∧ pml4Index a < 256 ∧ D a)
    (hs : PageStep root A m m') (hq : NoUserTable root m'.mem) :
    NoUserTable root m.mem ∧ count m'.pool = count m.pool := by
  obtain ⟨L', hsteps⟩ := hs.ownSteps h fun a ha => ⟨(hA a ha).1, (hA a ha).2.1, (hA a ha).2.2.2⟩
  have hold : NoUserTable root m.mem := fun i hi => by
    by_contra hp
    rw [Bool.not_eq_false] at hp
    have := hsteps.top_entry h hp
    rw [← this, hq i hi] at hp
    cases hp
  refine ⟨hold, ?_⟩
  cases hs with
  | @unmap a ha =>
    have hnone := hold.entryAt (hA a ha).2.2.1
    rw [unmapPage, show mmuResolve root a m = 0 by rw [mmuResolve_eq, hnone]]
    rfl
  | noFrame hz => exact congrArg _ (allocPage_empty (h.pinned_used 0 hK) hz).2
  | @mapFail m1 a phys prot data r ha hphys h0 hr hne =>
    obtain ⟨hal, hlt, hup, -⟩ := hA a ha
    obtain ⟨g, rfl, -, hsteps1, -⟩ := take_frame (A := A) h hphys h0 data
    rw [physToPfn_frame] at hr
    have hv : pml4Index (alignDown a pageSize) < 256 := by rwa [alignDown_of_aligned hal hlt]
    exact count_alloc_free hphys h0 (mmuMap_quiet (hsteps1.owns h) hK hv hr hq).2
  | @map m1 a phys prot data data' ha hphys h0 hr =>
    obtain ⟨hal, hlt, hup, -⟩ := hA a ha
    obtain ⟨g, rfl, hg40, hsteps1, hloose⟩ := take_frame (A := A) h hphys h0 data
    rw [physToPfn_frame] at hr hq
    have hown := hsteps1.owns h
    have hv : pml4Index (alignDown a pageSize) < 256 := by rwa [alignDown_of_aligned hal hlt]
    obtain ⟨hne, -⟩ | ⟨-, l, -, -, hnt⟩ :=
      map_frame (A := A) hown hloose hg40 (by omega) hal hlt (protFlags_frame prot) hr
    · exact absurd rfl hne
    have hq' : NoUserTable root m1.mem := fun i hi => by
      rw [← fill_table hnt data' i isPath_nil rfl]
      exact hq i hi
    exact absurd rfl (mmuMap_quiet hown hK hv hr hq').1
  | @cow a phys prot data ha hphys h0 hres =>
    rw [mmuResolve_eq, hold.entryAt (hA a ha).2.2.1] at hres
    exact absurd rfl hres

lemma PageSteps.quiet (hA : ∀ a, A a → a % pageSize = 0 ∧ a < 2 ^ 64 ∧ pml4Index a < 256 ∧ D a)
    (hs : PageSteps root A m m') (hq : NoUserTable root m'.mem) :
    NoUserTable root m.mem ∧ count m'.pool = count m.pool := by
  induction hs with
  | refl => exact ⟨hq, rfl⟩
  | tail hsteps hstep ih =>
    obtain ⟨L1, hs1⟩ := PageSteps.ownSteps h (fun a ha => ⟨(hA a ha).1, (hA a ha).2.1, (hA a ha).2.2.2⟩) hsteps
    obtain ⟨hq1, hc1⟩ := hstep.quiet (hs1.owns h) hK hA hq
    obtain ⟨hq2, hc2⟩ := ih hq1
    exact ⟨hq2, hc1.trans hc2⟩

lemma growHeap_quiet {addr : ℕ} {b : Bool} (ha : addr % pageSize = 0) (hlt : addr + (n + 1) * pageSize ≤ 2 ^ 64)
    (hup : pml4Index addr < 256) (hr : growHeap root (n + 1) addr m = (b, m'))
    (hq : NoUserTable root m'.mem) :
    b = false ∧ count m'.pool = count m.pool := by
  have hlt' : addr < 2 ^ 64 := by simp only [pageSize] at hlt; omega
  have hv : pml4Index (alignDown addr pageSize) < 256 := by rwa [alignDown_of_aligned ha hlt']
  rcases growHeap_succ hr with ⟨rfl, hfail⟩ | ⟨m1, hpage, hrest⟩
  · refine ⟨rfl, ?_⟩
    cases hfail with
    | mapped => rfl
    | noFrame hz => exact congrArg _ (allocPage_empty (h.pinned_used 0 hK) hz).2
    | mapFail hphys h0 hr' hne =>
      obtain ⟨g, rfl, -, hsteps1, -⟩ := take_plain (A := fun _ => True) h hphys h0
      exact count_alloc_free hphys h0 (mmuMap_quiet (hsteps1.owns h) hK hv hr' hq).2
  -- the table of the first page stays
  exfalso
  obtain ⟨-, -, l, hl, hsteps1⟩ := hpage.entries (A := fun _ => True) h ha hlt'
  have hown : Owns root K D (insert l L) m1 := (hsteps1 trivial).owns h
  have hlast := (hown.frame (Set.mem_insert l L)).last
  have htop := top_present (walkLoc_lastLevel hown.level hlast hl).1
  obtain ⟨L', hsteps2, -⟩ := growHeap_owned hown (by rwa [Nat.add_mod_right])
    (by rw [add_mul, one_mul] at hlt; omega) hrest
  have hkeep := hsteps2.top_entry hown htop
  rw [← hkeep, hq _ hup] at htop
  cases htop

end

end Quiet

section Run

variable {P : Type} [CountedPool P] {K : ℕ → Prop} {L : Set Loc} {s t : Space P} {c : ℕ}

/-- What the run keeps: while no table has been created in the user half, the heap is empty and
`c` frames are free. -/
structure Ledger (c : ℕ) (s : Space P) : Prop where
  start : s.as.brkStart = userHeapBase
  quiet : NoUserTable s.as.pt s.mm.machine.mem → s.as.brkEnd = s.as.brkStart ∧ count s.mm.machine.pool = c
  managed : Managed s.mm.machine.pool s.as.pt

section

variable (h : SpaceInv K L s)
include h

lemma Returns.ledger {ρ : Type} {G : Prop} {r : Option (ρ × Space P)} (hK : K 0) (hc : Ledger c s) (hr : Returns UserPage s l G r)
    (ht : r.map Prod.snd = some t) : Ledger c t := by
  obtain ⟨x, t', l', rfl, -, hstep, -⟩ := hr
  cases ht
  have hin : ∀ a, UserPage a → a % pageSize = 0 ∧ a < 2 ^ 64 ∧ pml4Index a < 256 ∧
      OwnedAddr s.as a := fun a ha =>
    ⟨ha.1, ha.2.trans (by decide), lowPage_index ha.2, .inl (lowPage_index ha.2)⟩
  refine ⟨hstep.brkStart.trans hc.start, fun hq => ?_, ?_⟩
  · rw [hstep.pt] at hq
    obtain ⟨hq', hcount⟩ := PageSteps.quiet h.owns hK hin hstep.machine hq
    obtain ⟨hbrk, hold⟩ := hc.quiet hq'
    exact ⟨by rw [hstep.brkEnd, hstep.brkStart, hbrk], hcount.trans hold⟩
  rw [hstep.pt]
  exact hstep.machine.managed hc.managed

lemma Reached.noUserTable {L' : Set Loc} (hr : Reached K L L' s t)
    (hq : NoUserTable t.as.pt t.mm.machine.mem) : NoUserTable s.as.pt s.mm.machine.mem := by
  intro i hi
  by_contra hp
  rw [Bool.not_eq_false] at hp
  have := hr.steps.top_entry h.owns hp
  rw [hr.pt] at hq
  rw [← this, hq i hi] at hp
  cases hp

lemma vmmBrk_ledger (hK : K 0) (hc : Ledger c s) (addr : ℕ) : Ledger c (vmmBrk addr s).2 := by
  obtain ⟨L', hreach, -⟩ := vmmBrk_owned h addr
  have hold := hreach.noUserTable h
  have hmod := alignUp_mod addr
  have hlt := alignUp_lt addr
  have hstep := vmmBrk_step addr s
  generalize vmmBrk addr s = r at hold hstep ⊢
  cases hstep with
  | same => exact hc
  | @grow b m' _ h1 h2 hr =>
    have hcount := pageCount_mul h.end_aligned hmod h2.le
    have hpages := growHeap_steps s.as.pt (pageCount s.as.brkEnd (alignUp addr pageSize)) s.as.brkEnd s.mm.machine
    rw [hr] at hpages
    have hquiet : NoUserTable s.as.pt m'.mem → NoUserTable s.as.pt s.mm.machine.mem →
        b = false ∧ count m'.pool = count s.mm.machine.pool := by
      intro hq hq'
      cases hn : pageCount s.as.brkEnd (alignUp addr pageSize) with
      | zero => rw [hn] at hcount; omega
      | succ n =>
        rw [hn] at hr hcount
        refine growHeap_quiet h.owns hK h.end_aligned (by omega) ?_ hr hq
        rw [(hc.quiet hq').1, hc.start]
        decide
    cases b with
    | false =>
      refine ⟨hc.start, fun hq => ?_, hpages.managed hc.managed⟩
      have hq' := hold hq
      exact ⟨(hc.quiet hq').1, (hquiet hq hq').2.trans (hc.quiet hq').2⟩
    | true =>
      refine ⟨hc.start, fun hq => ?_, hpages.managed hc.managed⟩
      exact absurd (hquiet hq (hold hq)).1 (by decide)
  | shrink _ h1 h2 =>
    have hpages := unmapRange_steps s.as.pt (alignUp addr pageSize) s.as.brkEnd s.mm.machine
    refine ⟨hc.start, fun hq => ?_, hpages.managed hc.managed⟩
    obtain ⟨hbrk, hcount⟩ := hc.quiet (hold hq)
    -- the heap is empty, so the released range is
    have heq : alignUp addr pageSize = s.as.brkStart := by omega
    rw [heq, hbrk]
    refine ⟨rfl, ?_⟩
    show count (unmapRange s.as.pt s.as.brkStart s.as.brkStart s.mm.machine).pool = c
    rwa [unmapRange, show pageCount s.as.brkStart s.as.brkStart = 0 by simp [pageCount, pageSize]]

lemma exec_ledger (hK : K 0) (hc : Ledger c s) {op : VmOp}
    (ht : op.exec s = some t) : Ledger c t := by
  obtain ⟨l, hl⟩ := h.areas
  cases op with
  | mmap addr length prot flags file offset =>
    exact Returns.ledger h hK hc (vmmMmap_returns hl addr length prot flags file offset) ht
  | munmap addr length => exact Returns.ledger h hK hc (vmmMunmap_returns hl addr length True) ht
  | brk addr =>
    cases ht
    exact vmmBrk_ledger h hK hc addr
  | fault addr errorCode =>
    exact Returns.ledger h hK hc (vmmHandlePageFault_returns hl addr errorCode True) ht

lemma vmRun_ledger (hK : K 0) (hc : Ledger c s) {ops : List VmOp}
    (ht : vmRun ops s = some t) : Ledger c t := by
  induction ops generalizing s L with
  | nil =>
    cases ht
    exact hc
  | cons op ops ih =>
    obtain ⟨s1, L1, hs1, -, hinv⟩ := exec_owned h op
    rw [vmRun, hs1, Option.bind_some] at ht
    exact ih hinv (exec_ledger h hK hc hs1) ht

end

end Run

lemma vmmDestroyLoop_spec {P : Type} {prev vma last : ℕ} {mm : Mm P}
    (hs : Seg mm.vmas prev vma l last 0) (hn : (l.map Prod.fst).Nodup) (hlen : l.length < n) :
    ∃ mm', vmmDestroyLoop n vma mm = some mm' ∧ mm'.machine = mm.machine := by
  induction l generalizing prev vma n mm with
  | nil =>
    obtain ⟨-, rfl⟩ := hs
    cases n with
    | zero => omega
    | succ n => exact ⟨mm, rfl, rfl⟩
  | cons x l ih =>
    obtain ⟨x, a⟩ := x
    obtain ⟨rfl, h0, nx, hx, hs⟩ := hs
    rw [List.map_cons, List.nodup_cons] at hn
    rw [List.length_cons] at hlen
    cases n with
    | zero => omega
    | succ n =>
      have hfree : vmmFreeVma x mm = { mm with vmas := Function.update mm.vmas x none } := if_neg h0
      have hseg : Seg (vmmFreeVma x mm).vmas x nx l last 0 := by rw [hfree]; exact hs.update hn.1
      obtain ⟨mm', hmm', hm⟩ := ih (n := n) hseg hn.2 (by omega)
      refine ⟨mm', ?_, hm.trans (by rw [hfree])⟩
      rwa [vmmDestroyLoop, if_neg h0, hx]

lemma pfnToPhys_frame {r : ℕ} (h : r < 2 ^ 40) : pfnToPhys r = r * 4096 := by
  rw [pfnToPhys, Nat.shiftLeft_eq, u64_of_lt (by omega)]

section Destroy

variable {P : Type} [CountedPool P] {K : ℕ → Prop} {L : Set Loc} {s : Space P} {c : ℕ}

lemma vmmDestroyAddressSpace_count (h : SpaceInv K L s) (hc : Ledger c s) (hlt : s.as.pt < 2 ^ 40) :
    ∃ mm', vmmDestroyAddressSpace s.as s.mm = some mm' ∧
      count mm'.machine.pool = count s.mm.machine.pool + 1 := by
  obtain ⟨l, hl⟩ := h.areas
  obtain ⟨last, hseg⟩ := hl.seg
  obtain ⟨mm', hmm', hm⟩ := vmmDestroyLoop_spec hseg hl.nodup (n := s.as.vmaCount + 1) (by rw [hl.count]; omega)
  refine ⟨_, by rw [vmmDestroyAddressSpace, hmm']; rfl, ?_⟩
  have hdiv : s.as.pt * 4096 / 4096 = s.as.pt := by omega
  show count (freePage (pfnToPhys s.as.pt) mm'.machine.pool) = _
  rw [pfnToPhys_frame hlt, hm, freePage_count]
  · rw [hdiv]; exact hc.managed
  · rw [hdiv]; exact h.owns.used [] _ isPath_nil rfl

/-- **A table in the user half is never given back.** `K` are the frames that were in use when the
address space was created, its tables aside: what is free now was free then, but for the PML4 and
the table. -/
theorem free_add_two (k : ℕ) (mem0 : PhysMem) (p0 : P) {L0 : Set Loc} {s0 : Space P}
    (h₀ : SpaceInv K L0 s0) (h : SpaceInv K L s) (hreach : Reached K L0 L s0 s)
    (hK : ∀ f, K f ∨ Free p0 f ∨ ¬ NoKernelTable k mem0 f)
    (hkernel : ∀ p f, IsPath p → KernelPath p → tableAt mem0 k p = some f →
      tableAt s0.mm.machine.mem s0.as.pt p = some f)
    (hroot : Free p0 s0.as.pt) (hi : i < 256)
    (hp : pteIsPresent (s.mm.machine.mem s.as.pt i) = true) :
    count s.mm.machine.pool + 2 ≤ count p0 := by
  have hown := h.owns
  rw [hreach.pt] at hown hp
  have hpath : IsPath [i] := ⟨by simp, by simp; omega⟩
  have ht : tableAt s.mm.machine.mem s0.as.pt ([] ++ [i]) =
      some (pteTable (s.mm.machine.mem s0.as.pt i)) :=
    tableAt_append_some.mpr ⟨_, rfl, nextTable_some.mpr ⟨hp, .inl rfl, rfl⟩⟩
  generalize pteTable (s.mm.machine.mem s0.as.pt i) = t at ht
  -- tables of the kernel half are still tables
  have hlater : ∀ f, ¬ NoKernelTable k mem0 f →
      ∃ p, IsPath p ∧ KernelPath p ∧ tableAt s.mm.machine.mem s0.as.pt p = some f := by
    intro f hf
    unfold NoKernelTable at hf
    push Not at hf
    obtain ⟨p, hp, hkp, hold⟩ := hf
    exact ⟨p, hp, hkp, hreach.steps.tableAt_mono h₀.owns hp (hkernel p f hp hkp hold)⟩
  have hfree : ∀ f, Free s.mm.machine.pool f → Free p0 f := by
    intro f hf
    rcases hK f with hk | hold | hker
    · exact absurd hf (hown.pinned_used f hk)
    · exact hold
    obtain ⟨p, hp, -, htab⟩ := hlater f hker
    exact absurd hf (hown.used p f hp htab)
  have ht0 : Free p0 t := by
    rcases hK t with hk | hold | hker
    · exact absurd ht (hown.pinned_table t hk [i] hpath)
    · exact hold
    obtain ⟨p, hp, hkp, htab⟩ := hlater t hker
    rcases hown.half [i] p t hpath hp ht htab with rfl | ⟨⟨j, hj, h256⟩, -⟩
    · obtain ⟨j, hj, h256⟩ := hkp
      cases hj
      omega
    cases hj
    omega
  have hne : t ≠ s0.as.pt := by
    rintro rfl
    have := hown.level [i] [] _ hpath isPath_nil ht rfl
    simp at this
  have hsub : { f | Free s.mm.machine.pool f } ⊆ { f | Free p0 f } \ {t, s0.as.pt} := by
    intro f hf
    refine ⟨hfree f hf, ?_⟩
    rintro (rfl | rfl)
    · exact hown.used [i] _ hpath ht hf
    · exact hown.used [] _ isPath_nil rfl hf
  have hfin := finite_free p0
  have hcard := Set.ncard_le_ncard hsub hfin.sdiff
  have hpair : ({t, s0.as.pt} : Set ℕ) ⊆ { f | Free p0 f } := by
    rintro f (rfl | rfl)
    · exact ht0
    · exact hroot
  rw [Set.ncard_sdiff hpair (Set.toFinite _), Set.ncard_pair hne] at hcard
  have htwo := Set.ncard_le_ncard hpair hfin
  rw [Set.ncard_pair hne] at htwo
  rw [count_eq, count_eq]
  omega

end Destroy

/-- **Destroying an address space.** Create an address space, perform any operations on it and
destroy it: the number of free frames is what it was before the creation exactly when no entry of the
user half of its PML4 is present at the end. -/
theorem destroy_conserves_iff (k : ℕ) (mm : Mm PmmPool) (hk : KernelTable k mm.machine)
    (as : AddressSpace) (hnew : (vmmCreateAddressSpace k mm).1 = some as) (ops : List VmOp) :
    ∃ s mm', vmRun ops ⟨as, (vmmCreateAddressSpace k mm).2⟩ = some s ∧ vmmDestroyAddressSpace s.as s.mm = some mm' ∧
      (mm'.machine.pool.1.freePages = mm.machine.pool.1.freePages ↔
        NoUserTable s.as.pt s.mm.machine.mem) := by
  let K : ℕ → Prop := fun f => ¬ Free mm.machine.pool f ∧ NoKernelTable k mm.machine.mem f
  have hK : K 0 := ⟨hk.zero, hk.zero_table⟩
  have hinv := vmmCreateAddressSpace_owned (K := K) hk (fun f hf => hf) hnew
  obtain ⟨r, rfl, hphys, h0, hfree, hm, -⟩ := vmmCreateAddressSpace_some hk.self hnew
  have hphys0 : (allocPage mm.machine.pool).1 ≠ 0 := by omega
  have hr40 : r < 2 ^ 40 := by
    obtain ⟨r', hr', hlt, -, -⟩ := allocPage_fresh hphys0
    omega
  have hone := allocPage_count hphys0
  generalize (vmmCreateAddressSpace k mm).2 = mm₁ at hinv hm ⊢
  have hledger : Ledger (count (allocPage mm.machine.pool).2)
      (⟨freshAddressSpace r, mm₁⟩ : Space PmmPool) := by
    refine ⟨rfl, fun _ => ⟨rfl, ?_⟩, ?_⟩
    · show count mm₁.machine.pool = _
      rw [hm]
    show Managed mm₁.machine.pool r
    rw [hm]
    exact managed_allocPage (managed_of_free hfree)
  obtain ⟨s, L, hs, hreach, hinv'⟩ := vmRun_owned hinv ops
  have hledger' := vmRun_ledger hinv hK hledger hs
  have hpt : s.as.pt = r := hreach.pt
  obtain ⟨mm', hmm', hcount⟩ := vmmDestroyAddressSpace_count hinv' hledger' (by rwa [hpt])
  refine ⟨s, mm', hs, hmm', ?_⟩
  show count mm'.machine.pool = count mm.machine.pool ↔ _
  constructor
  · intro heq i hi
    by_contra hp
    rw [Bool.not_eq_false] at hp
    have hsplit : ∀ f, K f ∨ Free mm.machine.pool f ∨ ¬ NoKernelTable k mm.machine.mem f := by
      intro f
      by_cases hf : Free mm.machine.pool f
      · exact .inr (.inl hf)
      by_cases hn : NoKernelTable k mm.machine.mem f
      · exact .inl ⟨hf, hn⟩
      · exact .inr (.inr hn)
    have hkernel : ∀ p f, IsPath p → KernelPath p → tableAt mm.machine.mem k p = some f →
        tableAt mm₁.machine.mem r p = some f := by
      intro p f hp hkp ht
      rw [hm]
      exact tableAt_newPml4_of hk hfree hp hkp ht
    have htwo := free_add_two k mm.machine.mem mm.machine.pool hinv hinv' hreach hsplit hkernel hfree hi hp
    omega
  intro hq
  rwa [hcount, (hledger'.quiet hq).2]

lemma smallMachine_kernelTable : KernelTable 1 smallMachine := by
  have hno : ∀ {p : List ℕ} {f : ℕ}, IsPath p → KernelPath p → tableAt smallMachine.mem 1 p ≠ some f := by
    rintro p f hp ⟨i, hi, -⟩ ht
    rw [(tableAt_smallMachine hp ht).1] at hi
    cases hi
  refine ⟨fun p f hp hkp ht => absurd ht (hno hp hkp), fun p q f hp _ hkp _ ht => absurd ht (hno hp hkp),
    fun p f i hp hkp ht => absurd ht (hno hp.left hkp), ?_, fun p hp hkp => hno hp hkp, ?_,
    fun p hp hkp => hno hp hkp⟩
  · exact smallMachine_used [] 1 isPath_nil rfl
  · exact smallMachine_owns.pinned_used 0 rfl

lemma smallMm_owned : SpaceInv (fun f => f = 0) ∅
    (⟨freshAddressSpace 2, (vmmCreateAddressSpace 1 smallMm).2⟩ : Space PmmPool) := by
  refine vmmCreateAddressSpace_owned smallMachine_kernelTable ?_ (by decide +kernel)
  rintro f rfl
  exact ⟨smallMachine_kernelTable.zero, smallMachine_kernelTable.zero_table⟩

theorem destroy_leaks : (vmmCreateAddressSpace 1 smallMm).1 = some (freshAddressSpace 2) ∧
    smallMm.machine.pool.1.freePages = 6 ∧
    ((vmRun [.mmap 0 0x1000 protWrite mapAnonymous 0 0, .fault 0x10000000 2]
      ⟨freshAddressSpace 2, (vmmCreateAddressSpace 1 smallMm).2⟩).bind fun s =>
        vmmDestroyAddressSpace s.as s.mm).map (fun mm => mm.machine.pool.1.freePages) = some 2 := by
  decide +kernel

theorem destroy_conserves_iff_small : ∃ s mm',
    vmRun [.mmap 0 0x3000 protWrite mapAnonymous 0 0, .munmap 0x10001000 0x1000]
      ⟨freshAddressSpace 2, (vmmCreateAddressSpace 1 smallMm).2⟩ = some s ∧
      vmmDestroyAddressSpace s.as s.mm = some mm' ∧
      (mm'.machine.pool.1.freePages = 6 ↔ NoUserTable s.as.pt s.mm.machine.mem) :=
  destroy_conserves_iff 1 smallMm smallMachine_kernelTable (freshAddressSpace 2) (by decide +kernel) _

end Obelisk
