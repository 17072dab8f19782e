import Obelisk.Vmm.Model

/-!
# What address-space operations do to memory

Every operation acts on physical memory one page at a time: it unmaps a page and frees its frame, or
it takes a frame, fills it and tries to map it.
-/

namespace Obelisk

open KLib Relation FramePool

variable {P : Type} [FramePool P] {a root start stop : ℕ} {A B : ℕ → Prop} {m m' : Machine P}

lemma alignDown_aligned (x : ℕ) : alignDown x pageSize % pageSize = 0 :=
  alignDown_mod (k := 12) x (by norm_num)

lemma alignUp_mod (x : ℕ) : alignUp x pageSize % pageSize = 0 := alignDown_aligned _

lemma alignUp_lt (x : ℕ) : alignUp x pageSize < 2 ^ 64 := alignDown_lt _ _ (by decide)

lemma lt_of_pages {addr n : ℕ} (h : addr + (n + 1) * pageSize ≤ 2 ^ 64) : addr < 2 ^ 64 := by
  simp only [pageSize] at h
  omega

def Machine.fill (m : Machine P) (pfn : ℕ) (data : ℕ → BitVec 64) : Machine P :=
  { m with mem := Function.update m.mem pfn data }

omit [FramePool P] in
lemma Machine.fill_self (m : Machine P) (pfn : ℕ) : m.fill pfn (m.mem pfn) = m := by
  rw [fill, Function.update_eq_self]

def Machine.afterAlloc (m : Machine P) : Machine P := { m with pool := (allocPage m.pool).2 }

/-- What a page of `A` goes through. -/
inductive PageStep (root : ℕ) (A : ℕ → Prop) : Machine P → Machine P → Prop
  | unmap {m : Machine P} {addr : ℕ} : A addr → PageStep root A m (unmapPage root addr m)
  | noFrame {m : Machine P} : (allocPage m.pool).1 = 0 → PageStep root A m m.afterAlloc
  | mapFail {m m' : Machine P} {addr phys : ℕ} {prot : BitVec 32} {data : ℕ → BitVec 64} {r : ℤ} :
      A addr → (allocPage m.pool).1 = phys → phys ≠ 0 →
      mmuMap root addr phys (vmmProtToPteFlags prot) (m.afterAlloc.fill (physToPfn phys) data) = (r, m') → r ≠ 0 →
      PageStep root A m { m' with pool := freePage phys m'.pool }
  | map {m m' : Machine P} {addr phys : ℕ} {prot : BitVec 32} {data : ℕ → BitVec 64} (data' : ℕ → BitVec 64) :
      A addr → (allocPage m.pool).1 = phys → phys ≠ 0 →
      mmuMap root addr phys (vmmProtToPteFlags prot) (m.afterAlloc.fill (physToPfn phys) data) = (0, m') →
      PageStep root A m (m'.fill (physToPfn phys) data')
  | cow {m : Machine P} {addr phys : ℕ} {prot : BitVec 32} (data : ℕ → BitVec 64) :
      A addr → (allocPage m.pool).1 = phys → phys ≠ 0 → mmuResolve root addr m ≠ 0 →
      PageStep root A m (mmuMap root addr phys (vmmProtToPteFlags prot)
        (mmuUnmap root addr (m.afterAlloc.fill (physToPfn phys) data)).2).2

abbrev PageSteps (root : ℕ) (A : ℕ → Prop) : Machine P → Machine P → Prop :=
  ReflTransGen (PageStep root A)

lemma PageStep.mono (hAB : ∀ a, A a → B a) (h : PageStep root A m m') : PageStep root B m m' := by
  cases h with
  | unmap ha => exact .unmap (hAB _ ha)
  | noFrame h0 => exact .noFrame h0
  | mapFail ha hp h0 hm hr => exact .mapFail (hAB _ ha) hp h0 hm hr
  | map data' ha hp h0 hm => exact .map data' (hAB _ ha) hp h0 hm
  | cow data ha hp h0 hr => exact .cow data (hAB _ ha) hp h0 hr

lemma PageSteps.mono (hAB : ∀ a, A a → B a) (h : PageSteps root A m m') : PageSteps root B m m' :=
  ReflTransGen.mono (fun _ _ hs => PageStep.mono hAB hs) _ _ h

/-! ## Loops over pages -/

def PageIn (start stop a : ℕ) : Prop := ∃ i < pageCount start stop, a = start + i * pageSize

lemma PageIn.bounds (h : PageIn start stop a) : start ≤ a ∧ a < stop := by
  obtain ⟨i, hi, rfl⟩ := h
  simp only [pageCount, pageSize] at *
  omega

lemma PageIn.aligned (h : PageIn start stop a) (hs : start % pageSize = 0) :
    a % pageSize = 0 := by
  obtain ⟨i, -, rfl⟩ := h
  rw [Nat.add_mul_mod_self_right, hs]

lemma pageIn_of_aligned (hs : start % pageSize = 0) (ha : a % pageSize = 0)
    (h₁ : start ≤ a) (h₂ : a < stop) : PageIn start stop a := by
  refine ⟨(a - start) / pageSize, ?_, ?_⟩ <;> simp only [pageCount, pageSize] at * <;> omega

lemma pageCount_mul (hs : start % pageSize = 0) (ht : stop % pageSize = 0)
    (hle : start ≤ stop) : start + pageCount start stop * pageSize = stop := by
  simp only [pageCount, pageSize] at *
  omega

lemma unmapRange_steps (root start stop : ℕ) (m : Machine P) :
    PageSteps root (PageIn start stop) m (unmapRange root start stop m) := by
  refine forRange_inv (fun _ (t : Machine P) => PageSteps root (PageIn start stop) m t) .refl ?_
  intro k t _ hk ht
  exact ht.tail (.unmap ⟨k, by omega, rfl⟩)

lemma growFlags_eq : ptePresent ||| pteWritable ||| pteUser = vmmProtToPteFlags protWrite := by
  decide

/-- What `vmm_brk` does: nothing, or pages are added or released. -/
inductive BrkStep (addr : ℕ) (s : Space P) : ℕ × Space P → Prop
  | same (r : ℕ) : BrkStep addr s (r, s)
  | grow {b : Bool} {m : Machine P} : addr ≠ 0 → s.as.brkStart ≤ alignUp addr pageSize →
      s.as.brkEnd < alignUp addr pageSize → growHeap s.as.pt
        (pageCount s.as.brkEnd (alignUp addr pageSize)) s.as.brkEnd s.mm.machine = (b, m) →
      BrkStep addr s (bif b then (alignUp addr pageSize,
        { s.setMachine m with as := { s.as with brkEnd := alignUp addr pageSize } })
        else (mapFailed, s.setMachine m))
  | shrink : addr ≠ 0 → s.as.brkStart ≤ alignUp addr pageSize →
      alignUp addr pageSize ≤ s.as.brkEnd → BrkStep addr s (alignUp addr pageSize,
        { s.setMachine (unmapRange s.as.pt (alignUp addr pageSize) s.as.brkEnd s.mm.machine) with
          as := { s.as with brkEnd := alignUp addr pageSize } })

lemma vmmBrk_step (addr : ℕ) (s : Space P) : BrkStep addr s (vmmBrk addr s) := by
  unfold vmmBrk
  dsimp only
  split_ifs with h0 h1 h2
  · exact .same _
  · exact .same _
  · rcases hr : growHeap s.as.pt (pageCount s.as.brkEnd (alignUp addr pageSize)) s.as.brkEnd
      s.mm.machine with ⟨_ | _, m⟩ <;> exact .grow h0 (le_of_not_gt h1) h2 hr
  · exact .shrink h0 (le_of_not_gt h1) (le_of_not_gt h2)

lemma growHeap_steps (root n addr : ℕ) (m : Machine P) :
    PageSteps root (fun a => ∃ i < n, a = addr + i * pageSize) m (growHeap root n addr m).2 := by
  induction n generalizing addr m with
  | zero => exact .refl
  | succ n ih =>
    have haddr : ∃ i < n + 1, addr = addr + i * pageSize := ⟨0, by omega, by omega⟩
    have hfill := m.afterAlloc.fill_self (physToPfn (allocPage m.pool).1)
    rcases hm : mmuMap root addr (allocPage m.pool).1
      (ptePresent ||| pteWritable ||| pteUser) m.afterAlloc with ⟨r, m'⟩
    have hm' := hm
    rw [growFlags_eq, ← hfill] at hm'
    rw [growHeap]
    dsimp only
    rw [show ({ m with pool := (allocPage m.pool).2 } : Machine P) = m.afterAlloc from rfl, hm]
    dsimp only
    split_ifs with hres h0 hr
    · exact .refl
    · exact .single (.noFrame h0)
    · exact .single (.mapFail haddr rfl h0 hm' hr)
    rw [not_not] at hr
    subst hr
    refine ReflTransGen.head (.map (fun _ => 0#64) haddr rfl h0 hm') ?_
    refine (ih (addr + pageSize) _).mono ?_
    rintro a ⟨i, hi, rfl⟩
    exact ⟨i + 1, by omega, by rw [add_mul]; omega⟩

omit [FramePool P] in
lemma vfsReadFrame_fill (pfn : ℕ) (mm : Mm P) :
    ∃ data, (vfsReadFrame pfn mm).2.machine = mm.machine.fill pfn data := by
  unfold vfsReadFrame
  cases mm.reads with
  | nil => exact ⟨_, (mm.machine.fill_self pfn).symm⟩
  | cons r rest => exact ⟨r.2, rfl⟩

omit [FramePool P] in
lemma vfsReadFrame_vmas (pfn : ℕ) (mm : Mm P) : (vfsReadFrame pfn mm).2.vmas = mm.vmas := by
  unfold vfsReadFrame
  cases mm.reads <;> rfl

lemma vmmPopulate_vmas (root : ℕ) (flags : BitVec 64) (n vaddr : ℕ) (mm : Mm P) :
    (vmmPopulate root flags n vaddr mm).2.vmas = mm.vmas := by
  induction n generalizing vaddr mm with
  | zero => rfl
  | succ n ih =>
    rw [vmmPopulate]
    dsimp only
    split_ifs with h0 hr hret
    · rfl
    · rfl
    · rw [vfsReadFrame_vmas]
    · rw [ih, vfsReadFrame_vmas]

lemma vmmPopulate_steps (root : ℕ) (prot : BitVec 32) (n vaddr : ℕ) (mm : Mm P) :
    PageSteps root (fun a => ∃ i < n, a = vaddr + i * pageSize) mm.machine
      (vmmPopulate root (vmmProtToPteFlags prot) n vaddr mm).2.machine := by
  induction n generalizing vaddr mm with
  | zero => exact .refl
  | succ n ih =>
    have haddr : ∃ i < n + 1, vaddr = vaddr + i * pageSize := ⟨0, by omega, by omega⟩
    generalize hphys : (allocPage mm.machine.pool).1 = phys
    rcases hm : mmuMap root vaddr phys (vmmProtToPteFlags prot)
      (mm.machine.afterAlloc.fill (physToPfn phys) fun _ => 0#64) with ⟨r, m'⟩
    obtain ⟨data, hdata⟩ := vfsReadFrame_fill (physToPfn phys) { mm with machine := m' }
    rw [vmmPopulate]
    dsimp only
    rw [hphys, show ({ pool := (allocPage mm.machine.pool).2
                       mem := mm.machine.mem.zeroFrame (physToPfn phys) } : Machine P) =
      mm.machine.afterAlloc.fill (physToPfn phys) fun _ => 0#64 from rfl, hm]
    dsimp only
    split_ifs with h0 hr hret
    · exact .single (.noFrame (hphys.trans h0))
    · exact .single (.mapFail haddr hphys h0 hm hr)
    · rw [not_not] at hr
      subst hr
      rw [hdata]
      exact .single (.map data haddr hphys h0 hm)
    rw [not_not] at hr
    subst hr
    refine ReflTransGen.head (.map data haddr hphys h0 hm) ?_
    rw [show m'.fill (physToPfn phys) data = _ from hdata.symm]
    refine (ih (vaddr + pageSize) _).mono ?_
    rintro a ⟨i, hi, rfl⟩
    exact ⟨i + 1, by omega, by rw [add_mul]; omega⟩

lemma handleFault_steps (root addr : ℕ) (prot : BitVec 32) (m : Machine P) :
    PageSteps root (· = addr) m (handleFault root addr prot m).2 := by
  generalize hphys : (allocPage m.pool).1 = phys
  rcases hm : mmuMap root addr phys (vmmProtToPteFlags prot)
    (m.afterAlloc.fill (physToPfn phys) fun _ => 0#64) with ⟨r, m'⟩
  unfold handleFault
  dsimp only
  rw [hphys, show ({ pool := (allocPage m.pool).2
                     mem := m.mem.zeroFrame (physToPfn phys) } : Machine P) =
    m.afterAlloc.fill (physToPfn phys) fun _ => 0#64 from rfl, hm]
  dsimp only
  split_ifs with hcow h0 h0 hr
  · exact .single (.noFrame (hphys.trans h0))
  · exact .single (.cow (m.mem (physToPfn (mmuResolve root addr m))) rfl hphys h0 hcow.1)
  · exact .single (.noFrame (hphys.trans h0))
  · exact .single (.mapFail rfl hphys h0 hm hr)
  rw [not_not] at hr
  subst hr
  have := PageStep.map (A := (· = addr)) (m'.mem (physToPfn phys)) rfl hphys h0 hm
  rw [Machine.fill_self] at this
  exact .single this

end Obelisk
