import Obelisk.Vmm.Brk
import Obelisk.Vmm.Run

/-!
# The system calls on memory

`sys_mmap`, `sys_munmap`, `sys_mprotect` and `sys_brk` of a process with an address space, and what
they do to the kernel half of its page table.
-/

namespace Obelisk

open KLib Relation BitVec

variable {addr n start v : ℕ} {flags : BitVec 64} {prot : BitVec 32}

section Model

variable {P : Type} [FramePool P]

def toResult (x : ℕ) : ℤ := (BitVec.ofNat 64 x).toInt

def sysMmapFile (addr length : ℕ) (prot flags : BitVec 32) (file : ℕ) (offset : BitVec 64)
    (s : Space P) : Option (ℤ × Space P) := do
  let (mapped, s) ← vmmMmap addr length prot flags file offset s
  some (if mapped = mapFailed then -eNOMEM else toResult mapped, s)

/-- `sys_mmap`; `files` is `fd_get` of the descriptor table, if there is one. -/
def sysMmap (files : Option (ℤ → ℕ)) (addr length : ℕ) (prot flags : BitVec 32) (fd : ℤ)
    (offset : BitVec 64) (s : Space P) : Option (ℤ × Space P) :=
  if length = 0 then some (-eINVAL, s)
  else if hasFlag flags mapAnonymous then sysMmapFile addr length prot flags 0 offset s
  else
    match files with
    | none => some (-eBADF, s)
    | some fdGet =>
      if hasFlag offset (BitVec.ofNat 64 (pageSize - 1)) then some (-eINVAL, s)
      else if fdGet fd = 0 then some (-eBADF, s)
      else sysMmapFile addr length prot flags (fdGet fd) offset s

def sysBrk (addr : ℕ) (s : Space P) : ℤ × Space P :=
  let (ret, s) := vmmBrk addr s
  (toResult (if ret = mapFailed then s.as.brkEnd else ret), s)

/-- The memory system calls. -/
inductive MemCall
  | mmap (addr length : ℕ) (prot flags : BitVec 32) (fd : ℤ) (offset : BitVec 64)
  | munmap (addr length : ℕ)
  | mprotect (addr length : ℕ) (prot : BitVec 32)
  | brk (addr : ℕ)
  deriving DecidableEq, Repr

def MemCall.exec (files : Option (ℤ → ℕ)) : MemCall → Space P → Option (ℤ × Space P)
  | mmap addr length prot flags fd offset, s => sysMmap files addr length prot flags fd offset s
  | munmap addr length, s => vmmMunmap addr length s
  | mprotect addr length prot, s => some (vmmMprotect addr length prot s)
  | brk addr, s => some (sysBrk addr s)

def memRun (files : Option (ℤ → ℕ)) : List MemCall → Space P → Option (Space P)
  | [], s => some s
  | c :: cs, s => (c.exec files s).bind fun r => memRun files cs r.2

abbrev UserOwns (root : ℕ) (L : Set Loc) (m : Machine P) : Prop :=
  Owns root (· = 0) (fun v => pml4Index v < 256) L m

/-- The address space of a process: its areas are listed, it owns the frames of its user pages, and
its break is page aligned. -/
structure ProcessSpace (s : Space P) : Prop where
  areas : ∃ l, Listed s l
  owned : ∃ L, UserOwns s.as.pt L s.mm.machine
  brk_aligned : s.as.brkEnd % pageSize = 0
  brk_lt : s.as.brkEnd < 2 ^ 64

def SameKernel (s t : Space P) : Prop := t.as.pt = s.as.pt ∧
  ∀ v, 256 ≤ pml4Index v → entryAt t.mm.machine.mem t.as.pt v = entryAt s.mm.machine.mem s.as.pt v

end Model

section Safe

variable {P : Type} [CountedPool P]

/-- The call gets to no kernel page. `mprotect`: the kernel pages of the range are unmapped or have
the flags already. `brk`: a growing heap ends before the first kernel page, a shrinking one covers no
mapped kernel page. -/
def MemCall.KernelSafe : MemCall → Space P → Prop
  | mmap .., _ => True
  | munmap .., _ => True
  | mprotect addr length prot, s =>
    ∀ a, PageIn (alignDown addr pageSize) (alignUp (u64 (addr + length)) pageSize) a →
      256 ≤ pml4Index a → mmuResolve s.as.pt a s.mm.machine = 0 ∨
        mmuGetFlags s.as.pt a s.mm.machine = vmmProtToPteFlags prot
  | brk addr, s =>
    let newBrk := alignUp addr pageSize
    addr = 0 ∨ newBrk < s.as.brkStart ∨ if s.as.brkEnd < newBrk then
        StopsBelow s.as.pt s.as.brkEnd (pageCount s.as.brkEnd newBrk) s.mm.machine
      else ∀ a, PageIn newBrk s.as.brkEnd a → 256 ≤ pml4Index a → mmuResolve s.as.pt a s.mm.machine = 0

def SafeRun (files : Option (ℤ → ℕ)) : List MemCall → Space P → Prop
  | [], _ => True
  | c :: cs, s => c.KernelSafe s ∧ ∀ r ∈ c.exec files s, SafeRun files cs r.2

end Safe

section Loops

variable {P : Type} [FramePool P] {root : ℕ} {L : Set Loc} {m : Machine P}

def UserSteps (root : ℕ) (L : Set Loc) (m t : Machine P) : Prop :=
  ∃ L', OwnSteps root (· = 0) (fun a => pml4Index a < 256) (m, L) (t, L')

lemma UserSteps.owns {t : Machine P} (hs : UserSteps root L m t) (h : UserOwns root L m) :
    ∃ L', UserOwns root L' t := by
  obtain ⟨L', hs⟩ := hs
  exact ⟨L', hs.owns h⟩

lemma UserSteps.entryAt {t : Machine P} (hs : UserSteps root L m t)
    (h : UserOwns root L m) (hv : 256 ≤ pml4Index v) :
    entryAt t.mem root v = entryAt m.mem root v := by
  obtain ⟨L', hs⟩ := hs
  exact hs.entryAt_upper h (fun _ ha => ha) hv

lemma UserSteps.tail {t u : Machine P} (hs : UserSteps root L m t) (h : UserOwns root L m)
    (hstep : ∀ L', UserOwns root L' t → UserSteps root L' t u) :
    UserSteps root L m u := by
  obtain ⟨L', hs⟩ := hs
  obtain ⟨L'', hs'⟩ := hstep L' (hs.owns h)
  exact ⟨L'', hs.trans hs'⟩

lemma PageSteps.userSteps {t : Machine P} {A : ℕ → Prop} (hs : PageSteps root A m t) (h : UserOwns root L m)
    (hA : ∀ a, A a → a % pageSize = 0 ∧ a < 2 ^ 64 ∧ pml4Index a < 256) : UserSteps root L m t := by
  obtain ⟨L', hs'⟩ := PageSteps.ownSteps h hA hs
  exact ⟨L', hs'.mono fun a ha => (hA a ha).2.2⟩

lemma forRange_userSteps {f : ℕ → Machine P → Machine P} (h : UserOwns root L m)
    (hf : ∀ i < n, ∀ t L', UserOwns root L' t → UserSteps root L m t → UserSteps root L' t (f i t)) :
    UserSteps root L m (forRange f 0 n m) := by
  refine forRange_inv (fun _ t => UserSteps root L m t) ⟨L, .refl⟩ ?_
  intro k t _ hk ht
  exact ht.tail h fun L' hown => hf k (by omega) t L' hown ht

lemma mmuResolve_congr {t : Machine P} (h : Obelisk.entryAt t.mem root v = Obelisk.entryAt m.mem root v) :
    mmuResolve root v t = mmuResolve root v m := by
  rw [mmuResolve_eq, mmuResolve_eq, h]

lemma unmapRange_userSteps {stop : ℕ} (h : UserOwns root L m) (hs : start % pageSize = 0)
    (hlt : stop ≤ 2 ^ 64) (hk : ∀ a, PageIn start stop a → 256 ≤ pml4Index a →
      mmuResolve root a m = 0) : UserSteps root L m (unmapRange root start stop m) := by
  refine forRange_userSteps h fun i hi t L' hown ht => ?_
  have hin : PageIn start stop (start + i * pageSize) := ⟨i, hi, rfl⟩
  by_cases hup : 256 ≤ pml4Index (start + i * pageSize)
  · have hzero := (mmuResolve_congr (ht.entryAt h hup)).trans (hk _ hin hup)
    rw [unmapPage, hzero]
    exact ⟨L', .refl⟩
  refine PageSteps.userSteps (.single (.unmap (A := (· = start + i * pageSize)) rfl)) hown ?_
  rintro a rfl
  exact ⟨hin.aligned hs, hin.bounds.2.trans_le hlt, by omega⟩

lemma pteMake_getFrame {e : BitVec 64} (h : e &&& ~~~pageFrameMask = flags) :
    pteMake (pteGetFrame e) flags = e := by
  rw [pteMake, pteGetFrame, ofNat_toNat, setWidth_eq, ← h]
  apply eq_of_getLsbD_eq
  intro i hi
  simp only [getLsbD_or, getLsbD_and, getLsbD_not, hi, decide_true,
    Bool.true_and, Bool.and_assoc, Bool.and_self]
  cases e.getLsbD i <;> cases pageFrameMask.getLsbD i <;> rfl

lemma protFlags_present (prot : BitVec 32) :
    vmmProtToPteFlags prot ||| ptePresent = vmmProtToPteFlags prot := by
  unfold vmmProtToPteFlags
  split_ifs <;> decide

lemma write_read (mem : PhysMem) (l : Loc) : mem.write l (mem.read l) = mem := by
  rw [PhysMem.write, PhysMem.read, Function.update_eq_self, Function.update_eq_self]

lemma mmuSetFlags_mapped {a : ℕ} {l : Loc} (h : PresentAt m.mem root a l) : (mmuSetFlags root a flags m).2 =
      ⟨m.pool, m.mem.write l (pteMake (pteGetFrame (m.mem.read l)) (flags ||| ptePresent))⟩ := by
  rw [mmuSetFlags_eq, h.1]
  show (if _ then _ else _ : ℤ × Machine P).2 = _
  rw [if_pos h.2]

lemma mprotect_userSteps (h : UserOwns root L m) (hk : ∀ i < n, 256 ≤ pml4Index (start + i * pageSize) →
      mmuResolve root (start + i * pageSize) m = 0 ∨
        mmuGetFlags root (start + i * pageSize) m = vmmProtToPteFlags prot) :
    UserSteps root L m (forRange (fun i => mprotectPage root (vmmProtToPteFlags prot)
      (start + i * pageSize)) 0 n m) := by
  refine forRange_userSteps h fun i hi t L' hown ht => ?_
  generalize hpage : start + i * pageSize = a
  have hk := hk i hi
  rw [hpage] at hk
  unfold mprotectPage
  split_ifs with hres
  swap
  · exact ⟨L', .refl⟩
  cases he : Obelisk.entryAt t.mem root a with
  | none =>
    rw [mmuResolve_eq, he] at hres
    exact absurd rfl hres
  | some e =>
    obtain ⟨l, hl, rfl⟩ := entryAt_some.mp he
    rw [mmuSetFlags_mapped hl]
    by_cases hup : 256 ≤ pml4Index a
    · -- the entry is written back as it was
      have heq := ht.entryAt h hup
      rcases hk hup with hzero | hflags
      · exact absurd ((mmuResolve_congr heq).trans hzero) hres
      have hsame : pteMake (pteGetFrame (t.mem.read l)) (vmmProtToPteFlags prot ||| ptePresent) =
          t.mem.read l := by
        rw [protFlags_present]
        refine pteMake_getFrame ?_
        rw [he] at heq
        obtain ⟨l0, hl0, hread⟩ := entryAt_some.mp heq.symm
        rw [mmuGetFlags, pagingWalk_false, hl0.1] at hflags
        rwa [← hread]
      rw [hsame, write_read]
      exact ⟨L', .refl⟩
    have huser : pml4Index a < 256 := by omega
    refine ⟨L', .single (.protect huser hl.1 (hown.cover a huser l hl) (pteIsPresent_make ..) ?_ rfl rfl)⟩
    rw [pteGetFrame_eq]
    exact pteTable_make (pteTable_lt _) (protFlags_frame prot)

end Loops

/-! ## One call -/

section Calls

variable {P : Type} [CountedPool P] {s t : Space P}

lemma ProcessSpace.change (h : ProcessSpace s) (hpt : t.as.pt = s.as.pt) (hl : ∃ l, Listed t l)
    (hb : t.as.brkEnd % pageSize = 0 ∧ t.as.brkEnd < 2 ^ 64)
    (hm : ∀ L, UserOwns s.as.pt L s.mm.machine → UserSteps s.as.pt L s.mm.machine t.mm.machine) :
    ProcessSpace t ∧ SameKernel s t := by
  obtain ⟨L, hown⟩ := h.owned
  have hsteps := hm L hown
  refine ⟨⟨hl, hpt ▸ hsteps.owns hown, hb.1, hb.2⟩, hpt, fun v hv => ?_⟩
  rw [hpt]
  exact hsteps.entryAt hown hv

lemma Returns.process {ρ : Type} {l : List (ℕ × Area)} {G : Prop} {r : Option (ρ × Space P)}
    (h : ProcessSpace s) (hr : Returns UserPage s l G r) :
    ∃ x t, r = some (x, t) ∧ ProcessSpace t ∧ SameKernel s t := by
  obtain ⟨x, t, l', rfl, hl, hstep, -⟩ := hr
  refine ⟨x, t, rfl, h.change hstep.pt ⟨l', hl⟩ ?_ fun L hown => ?_⟩
  · rw [hstep.brkEnd]
    exact ⟨h.brk_aligned, h.brk_lt⟩
  refine hstep.machine.userSteps hown fun a ha => ⟨ha.1, ?_, lowPage_index ha.2⟩
  have := userSpaceEnd_lt
  have := ha.2
  omega

omit [CountedPool P] in
lemma SameKernel.refl (s : Space P) : SameKernel s s := ⟨rfl, fun _ _ => rfl⟩

omit [CountedPool P] in
lemma SameKernel.trans {u : Space P} (h₁ : SameKernel s t) (h₂ : SameKernel t u) :
    SameKernel s u :=
  ⟨h₂.1.trans h₁.1, fun v hv => (h₂.2 v hv).trans (h₁.2 v hv)⟩

section

variable (h : ProcessSpace s)
include h

lemma sysMmapFile_process (addr length : ℕ) (prot flags : BitVec 32) (file : ℕ) (offset : BitVec 64) : ∃ x t,
      sysMmapFile addr length prot flags file offset s = some (x, t) ∧ ProcessSpace t ∧
        SameKernel s t := by
  obtain ⟨l, hl⟩ := h.areas
  obtain ⟨x, t, hr, ht⟩ := Returns.process h (vmmMmap_returns hl addr length prot flags file offset)
  exact ⟨_, t, by rw [sysMmapFile, hr]; rfl, ht⟩

lemma sysMmap_process (files : Option (ℤ → ℕ)) (addr length : ℕ)
    (prot flags : BitVec 32) (fd : ℤ) (offset : BitVec 64) : ∃ x t,
      sysMmap files addr length prot flags fd offset s = some (x, t) ∧ ProcessSpace t ∧
        SameKernel s t := by
  unfold sysMmap
  by_cases h0 : length = 0
  · rw [if_pos h0]
    exact ⟨_, s, rfl, h, .refl s⟩
  rw [if_neg h0]
  by_cases hanon : hasFlag flags mapAnonymous = true
  · rw [if_pos hanon]
    exact sysMmapFile_process h addr length prot flags 0 offset
  rw [if_neg hanon]
  cases files with
  | none => exact ⟨_, s, rfl, h, .refl s⟩
  | some fdGet =>
    dsimp only
    split_ifs
    · exact ⟨_, s, rfl, h, .refl s⟩
    · exact ⟨_, s, rfl, h, .refl s⟩
    · exact sysMmapFile_process h addr length prot flags (fdGet fd) offset

lemma vmmMprotect_process {length : ℕ} (hk : (MemCall.mprotect addr length prot).KernelSafe s) :
    ProcessSpace (vmmMprotect addr length prot s).2 ∧
      SameKernel s (vmmMprotect addr length prot s).2 := by
  obtain ⟨l, hl⟩ := h.areas
  refine h.change rfl ⟨l, hl.setMachine _⟩ ⟨h.brk_aligned, h.brk_lt⟩ fun L hown => ?_
  exact mprotect_userSteps hown fun i hi hup => hk _ ⟨i, hi, rfl⟩ hup

lemma vmmBrk_process (hk : (MemCall.brk addr).KernelSafe s) :
    ProcessSpace (vmmBrk addr s).2 ∧ SameKernel s (vmmBrk addr s).2 := by
  obtain ⟨l, hl⟩ := h.areas
  have hlist : ∃ l, Listed (vmmBrk addr s).2 l := ⟨l, vmmBrk_listed hl addr⟩
  have hmod := alignUp_mod addr
  have hlt := alignUp_lt addr
  have hbrk := h.brk_aligned
  have hbrk_lt := h.brk_lt
  unfold MemCall.KernelSafe at hk
  have hstep := vmmBrk_step addr s
  generalize vmmBrk addr s = r at hlist hstep ⊢
  cases hstep with
  | same => exact ⟨h, .refl s⟩
  | @grow b m' h0 h1 h2 hr =>
    have hk := (hk.resolve_left h0).resolve_left (not_lt.mpr h1)
    rw [if_pos h2] at hk
    have hgrow : ∀ L, UserOwns s.as.pt L s.mm.machine → UserSteps s.as.pt L s.mm.machine m' :=
      fun L hown => growHeap_upper hown rfl hbrk (by rw [pageCount_mul hbrk hmod h2.le]; exact hlt.le) hk hr
    cases b with
    | false => exact h.change rfl hlist ⟨hbrk, hbrk_lt⟩ hgrow
    | true => exact h.change rfl hlist ⟨hmod, hlt⟩ hgrow
  | shrink h0 h1 h2 =>
    have hk := (hk.resolve_left h0).resolve_left (not_lt.mpr h1)
    rw [if_neg (not_lt.mpr h2)] at hk
    refine h.change rfl hlist ⟨hmod, hlt⟩ fun L hown => ?_
    exact unmapRange_userSteps hown hmod hbrk_lt.le hk

lemma exec_process (files : Option (ℤ → ℕ)) (c : MemCall) (hk : c.KernelSafe s) :
    ∃ x t, c.exec files s = some (x, t) ∧ ProcessSpace t ∧ SameKernel s t := by
  cases c with
  | mmap addr length prot flags fd offset =>
    exact sysMmap_process h files addr length prot flags fd offset
  | munmap addr length =>
    obtain ⟨l, hl⟩ := h.areas
    exact Returns.process h (vmmMunmap_returns hl addr length True)
  | mprotect addr length prot => exact ⟨_, _, rfl, vmmMprotect_process h hk⟩
  | brk addr => exact ⟨_, _, rfl, vmmBrk_process h hk⟩

end

end Calls

/-- **The kernel half of a process.** From the address space of any process, after any calls each of
which gets to no kernel page, every kernel address has the entry it had. -/
theorem memRun_keeps_kernel (files : Option (ℤ → ℕ)) (s : Space PmmPool) (h : ProcessSpace s)
    (calls : List MemCall) (hsafe : SafeRun files calls s) :
    ∃ t, memRun files calls s = some t ∧ ∀ v, 256 ≤ pml4Index v →
      entryAt t.mm.machine.mem t.as.pt v = entryAt s.mm.machine.mem s.as.pt v := by
  have key : ∃ t, memRun files calls s = some t ∧ SameKernel s t := by
    induction calls generalizing s with
    | nil => exact ⟨s, rfl, .refl s⟩
    | cons c calls ih =>
      obtain ⟨hk, hrest⟩ := hsafe
      obtain ⟨x, t, hr, hproc, hsame⟩ := exec_process h files c hk
      obtain ⟨u, hu, hsame'⟩ := ih t hproc (hrest (x, t) hr)
      exact ⟨u, by rwa [memRun, hr], hsame.trans hsame'⟩
  obtain ⟨t, ht, hsame⟩ := key
  exact ⟨t, ht, hsame.2⟩

def kernelMachine : Machine PmmPool :=
  (mmuMap 1 kernelVirtBase 0x2000 (ptePresent ||| pteWritable) smallMachine.afterAlloc).2

def kernelSpace : Space PmmPool := ⟨freshAddressSpace 1, { smallMm with machine := kernelMachine }⟩

lemma smallMachine_owns : UserOwns 1 ∅ smallMachine := by
  refine ⟨smallMachine_used, fun p q f hp hq h₁ h₂ => ?_, fun p q f hp hq h₁ h₂ => .inl ?_,
    fun p f i _ _ _ hh => ?_, by simp, by simp, fun v _ l hl => ?_, ?_, ?_⟩
  · rw [(tableAt_smallMachine hp h₁).1, (tableAt_smallMachine hq h₂).1]
  · rw [(tableAt_smallMachine hp h₁).1, (tableAt_smallMachine hq h₂).1]
  · exact absurd (pteIsHuge_zero.symm.trans hh) (by decide)
  · exact absurd (pteIsPresent_zero.symm.trans hl.2) (by decide)
  · rintro k rfl ⟨z, hz⟩
    have hbit := (Pmm.mem_freeFrames.mp hz).2
    rw [show bitmapTest smallMachine.pool.1.bitmap 0 = true by decide +kernel] at hbit
    cases hbit
  rintro k rfl p hp ht
  exact absurd (tableAt_smallMachine hp ht).2 (by decide)

lemma kernelSpace_process : ProcessSpace kernelSpace := by
  refine ⟨⟨[], ⟨⟨0, rfl, rfl⟩, List.nodup_nil, by simp, rfl, by simp, List.Pairwise.nil⟩⟩, ?_, by decide, by decide⟩
  have hphys : (FramePool.allocPage smallMachine.pool).1 = 0x2000 := by decide +kernel
  obtain ⟨g, hg, hg40, hsteps, hloose⟩ :=
    take_plain (A := fun _ => True) smallMachine_owns hphys (by decide)
  obtain rfl : g = 2 := by omega
  have hr : mmuMap 1 kernelVirtBase (2 * 4096) (ptePresent ||| pteWritable) smallMachine.afterAlloc =
      (0, kernelMachine) := Prod.ext (by decide +kernel) rfl
  rcases map_frame (A := fun _ => True) (hsteps.owns smallMachine_owns) hloose hg40 (by decide)
    (by decide) (by decide) (by decide) hr with ⟨h0, -⟩ | ⟨-, l, -, hsteps', -⟩
  · exact absurd rfl h0
  · exact ⟨_, (hsteps' trivial).owns (hsteps.owns smallMachine_owns)⟩

theorem mprotect_opens_kernel : ProcessSpace kernelSpace ∧ ∃ t,
    (MemCall.mprotect kernelVirtBase pageSize protRead).exec none kernelSpace = some (0, t) ∧
      256 ≤ pml4Index kernelVirtBase ∧
      entryAt kernelSpace.mm.machine.mem kernelSpace.as.pt kernelVirtBase = some 0x2003#64 ∧
      entryAt t.mm.machine.mem t.as.pt kernelVirtBase = some 0x2005#64 :=
  ⟨kernelSpace_process, _, rfl, by decide, by decide +kernel, by decide +kernel⟩

theorem memRun_keeps_kernel_small :
    let calls := [MemCall.brk 0x10001000, .mmap 0 0x2000 protWrite mapAnonymous 0 0,
      .mprotect 0x10000000 0x1000 protRead, .munmap 0x10001000 0x1000]
    SafeRun none calls kernelSpace ∧ ∃ t, memRun none calls kernelSpace = some t ∧
      entryAt t.mm.machine.mem t.as.pt kernelVirtBase = some 0x2003#64 := by
  intro calls
  have hsafe : SafeRun none calls kernelSpace := by
    refine ⟨.inr (.inr ?_), fun _ _ => ⟨trivial, fun _ _ => ⟨?_, fun _ _ => ⟨trivial, fun _ _ => trivial⟩⟩⟩⟩
    · rw [if_pos (by decide)]
      intro k hk hup
      rw [show pageCount kernelSpace.as.brkEnd (alignUp 0x10001000 pageSize) = 1 by decide] at hk
      obtain rfl : k = 0 := by omega
      exact absurd hup (by decide)
    intro a ha hup
    have hstop : alignUp (u64 (0x10000000 + 0x1000)) pageSize ≤ userSpaceEnd := by decide
    have := lowPage_index (ha.bounds.2.trans_le hstop)
    omega
  obtain ⟨t, ht, hkeep⟩ := memRun_keeps_kernel none kernelSpace kernelSpace_process calls hsafe
  exact ⟨hsafe, t, ht, (hkeep kernelVirtBase (by decide)).trans (by decide +kernel)⟩

end Obelisk
