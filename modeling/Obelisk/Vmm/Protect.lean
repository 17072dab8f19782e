import Obelisk.Vmm.ClonePages
import Obelisk.Vmm.Fresh

/-!
# Changing the protection

`vmm_mprotect` rewrites the entries of the pages that are mapped; the areas keep their flags and their
protection, which later page faults go by.
-/

namespace Obelisk

open KLib Relation Function Option

variable {file p start stop vma : ℕ} {flags : BitVec 32} {f : Cell Area → Cell Area} {r : ℤ} {ops : List VmOp}
variable {addr length root : ℕ} {D : ℕ → Prop} {prot : BitVec 32} {offset : BitVec 64}

def Area.Agrees (a : Area) : Prop := hasFlag a.flags vmaWrite = hasFlag a.prot protWrite

def InRange (addr length p : ℕ) : Prop :=
  alignDown addr pageSize ≤ p ∧ p < alignUp (u64 (addr + length)) pageSize

def CoveredBy (l : List (ℕ × Area)) (addr length : ℕ) : Prop :=
  ∀ p, InRange addr length p → (viewAt l p).isSome

section Call

variable {P : Type} [FramePool P] {K : ℕ → Prop} {L : Set Loc} {s : Space P} {l : List (ℕ × Area)} {addr length : ℕ}

lemma mprotectPage_owns {a : ℕ} {m : Machine P} (prot : BitVec 32) (h : Owns root K D L m) (hD : D a) :
    Owns root K D L (mprotectPage root (vmmProtToPteFlags prot) a m) := by
  unfold mprotectPage
  split_ifs with hres
  swap
  · exact h
  cases he : entryAt m.mem root a with
  | none =>
    rw [mmuResolve_eq, he] at hres
    exact absurd rfl hres
  | some e =>
    obtain ⟨loc, hloc, rfl⟩ := entryAt_some.mp he
    rw [mmuSetFlags_mapped hloc]
    refine OwnStep.owns (x := (m, L)) (y := (_, L)) (.protect (A := fun _ => True) trivial hloc.1
      (h.cover a hD loc hloc) (pteIsPresent_make ..) ?_ rfl rfl) h
    rw [pteGetFrame_eq]
    exact pteTable_make (pteTable_lt _) (protFlags_frame prot)

omit [FramePool P] in
lemma Listed.userAddr (hl : Listed s l) (hp : (viewAt l p).isSome) : p < userSpaceEnd := by
  obtain ⟨y, hy, hin⟩ := viewAt_isSome.mp hp
  exact hin.2.trans_le (hl.ok y hy).stop_le

lemma vmmMprotect_owned (h : SpaceInv K L s) (hl : Listed s l) (hcov : CoveredBy l addr length)
    (prot : BitVec 32) : SpaceInv K L (vmmMprotect addr length prot s).2 := by
  refine ⟨⟨l, hl.setMachine _⟩, ?_, h.start_aligned, h.end_aligned, h.brk_le, h.brk_lt⟩
  refine forRange_inv (fun _ t => Owns s.as.pt K (OwnedAddr s.as) L t) h.owns fun i t _ hi ht => ?_
  refine mprotectPage_owns prot ht (.inl (lowPage_index ?_))
  have hin : PageIn (alignDown addr pageSize) (alignUp (u64 (addr + length)) pageSize)
    (alignDown addr pageSize + i * pageSize) := ⟨i, by omega, rfl⟩
  exact hl.userAddr (hcov _ hin.bounds)

/-- A later state, with no `mprotect` of the range in between. -/
inductive Later (addr length : ℕ) (s : Space P) : Space P → Prop
  | refl : Later addr length s s
  | op {t u : Space P} (o : VmOp) : Later addr length s t → o.exec t = some u → Later addr length s u
  | protect {t : Space P} {l : List (ℕ × Area)} {addr' length' : ℕ} (prot : BitVec 32) :
      Later addr length s t → Listed t l → CoveredBy l addr' length' →
      (∀ p, InRange addr length p → ¬ InRange addr' length' p) →
      Later addr length s (vmmMprotect addr' length' prot t).2

lemma Later.owned {t : Space P} (ht : Later addr length s t) (h : SpaceInv K L s) :
    ∃ L', SpaceInv K L' t := by
  induction ht with
  | refl => exact ⟨L, h⟩
  | op o _ hu ih =>
    obtain ⟨L', hinv⟩ := ih
    obtain ⟨u', L'', hu', -, hinv'⟩ := exec_owned hinv o
    obtain rfl := some.inj (hu.symm.trans hu')
    exact ⟨L'', hinv'⟩
  | protect prot _ hl hcov _ ih =>
    obtain ⟨L', hinv⟩ := ih
    exact ⟨L', vmmMprotect_owned hinv hl hcov prot⟩

end Call

section Fault

variable {P : Type} [FramePool P] {s t : Space P} {l : List (ℕ × Area)}

lemma viewAt_some {w : View} (h : viewAt l p = some w) :
    ∃ y ∈ l, y.2.Has p ∧ y.2.flags = w.1 ∧ y.2.prot = w.2.1 := by
  obtain ⟨y, hy, hview⟩ := List.exists_of_findSome?_eq_some h
  rw [Area.view] at hview
  split_ifs at hview with hin
  cases hview
  exact ⟨y, hy, hin, rfl, rfl⟩

lemma vmmHandlePageFault_eq (hl : Listed s l) {y : ℕ × Area} (hy : y ∈ l) {v : ℕ}
    (hv : y.2.Has v) (code : BitVec 32) : vmmHandlePageFault v code s =
      if hasFlag code 0x2 ∧ !hasFlag y.2.flags vmaWrite then some (-eACCES, s)
      else some ((handleFault s.as.pt (alignDown v pageSize) y.2.prot s.mm.machine).1,
        s.setMachine (handleFault s.as.pt (alignDown v pageSize) y.2.prot s.mm.machine).2) := by
  obtain ⟨r, hr, hcase⟩ := vmmFindVma_spec hl v
  rcases hcase with ⟨a, ha, hin⟩ | ⟨-, hno⟩
  swap
  · exact absurd hv (hno y hy)
  obtain rfl := hl.ordered.unique ha hy hin hv
  obtain ⟨last, hseg⟩ := hl.seg
  obtain ⟨h0, nx, pv, hcell⟩ := hseg.mem_some ha
  rw [vmmHandlePageFault, hr]
  simp only [bind_eq_bind, bind_some]
  rw [if_neg h0, hcell]
  rfl

lemma handleFault_ne_acces (root page : ℕ) (prot : BitVec 32) (m : Machine P) :
    (handleFault root page prot m).1 ≠ -eACCES := by
  have h0 : (0 : ℤ) ≠ -eACCES := by decide
  have hmem : -eNOMEM ≠ -eACCES := by decide
  have hexist : -eEXIST ≠ -eACCES := by decide
  have hmap : ∀ virt phys flags (m : Machine P), (mmuMap root virt phys flags m).1 ≠ -eACCES := by
    intro virt phys flags m
    unfold mmuMap
    dsimp only
    split
    · exact hmem
    split_ifs
    · exact hexist
    · exact h0
  unfold handleFault
  dsimp only
  split_ifs
  · exact hmem
  · exact h0
  · exact hmem
  · exact hmap _ _ _ _
  · exact h0

lemma pteMake_flags (frame : ℕ) {flags : BitVec 64} (hf : flags &&& pageFrameMask = 0) :
    pteMake frame flags &&& ~~~pageFrameMask = flags := by
  apply BitVec.eq_of_getLsbD_eq
  intro i hi
  have hbit : (flags &&& pageFrameMask).getLsbD i = false := by rw [hf]; exact BitVec.getLsbD_zero
  rw [BitVec.getLsbD_and] at hbit
  simp only [pteMake, BitVec.getLsbD_or, BitVec.getLsbD_and, BitVec.getLsbD_not, hi, decide_true, Bool.true_and]
  cases hm : pageFrameMask.getLsbD i with
  | false => simp
  | true => simpa [hm] using hbit.symm

lemma handleFault_first {page : ℕ} {K : ℕ → Prop} {L : Set Loc} {m m' : Machine P}
    (h : Owns root K D L m) (hpage : UserPage page)
    (hnone : entryAt m.mem root page = none) (hr : handleFault root page prot m = (0, m')) :
    ∃ e, entryAt m'.mem root page = some e ∧ e &&& ~~~pageFrameMask = vmmProtToPteFlags prot := by
  have hres : mmuResolve root page m = 0 := by rw [mmuResolve_eq, hnone]
  unfold handleFault at hr
  dsimp only at hr
  rw [hres, if_neg fun hc => hc.1 rfl] at hr
  split_ifs at hr with h0 hret
  · exact absurd hr (by simp [eNOMEM])
  · exact absurd (congrArg Prod.fst hr) hret
  obtain ⟨g, hg, -, hsteps, -⟩ := take_frame (A := fun _ => True) h rfl h0 fun _ => 0#64
  have hown := hsteps.owns h
  rw [hg, physToPfn_frame] at hr hret
  rw [not_not] at hret
  cases hr
  obtain ⟨hentry, -⟩ := mmuMap_entryAt hown hpage (Prod.ext hret rfl)
  refine ⟨_, (hentry page hpage).trans (if_pos rfl), ?_⟩
  have hframe := protFlags_frame prot
  rw [protFlags_present] at hframe ⊢
  exact pteMake_flags _ hframe

end Fault

section Govern

variable {P : Type} [FramePool P] {K : ℕ → Prop} {L : Set Loc} {s : Space P}
  {l : List (ℕ × Area)} {addr length : ℕ} {prot : BitVec 32}

/-- Page faults in the range follow `prot`: a page gets its first frame with the flags of `prot`, and a
write is refused exactly if `prot` does not allow it. -/
def FaultsFollow (addr length : ℕ) (prot : BitVec 32) (t : Space P) : Prop :=
  ∀ v code r u, InRange addr length v → vmmHandlePageFault v code t = some (r, u) →
    (entryAt t.mm.machine.mem t.as.pt (alignDown v pageSize) = none → r = 0 →
      ∃ e, entryAt u.mm.machine.mem t.as.pt (alignDown v pageSize) = some e ∧
        e &&& ~~~pageFrameMask = vmmProtToPteFlags prot) ∧
    (hasFlag code 0x2 = true → (r = -eACCES ↔ hasFlag prot protWrite = false))

lemma protFlags_congr {p q : BitVec 32} (h : hasFlag p protWrite = hasFlag q protWrite) :
    vmmProtToPteFlags p = vmmProtToPteFlags q := by
  rw [vmmProtToPteFlags, vmmProtToPteFlags, h]

lemma faultsFollow_of_view {t : Space P} (h : SpaceInv K L t) (hl : Listed t l)
    (hview : ∀ v, InRange addr length v → ∃ w, viewAt l v = some w ∧ hasFlag w.1 vmaWrite = hasFlag prot protWrite ∧
      hasFlag w.2.1 protWrite = hasFlag prot protWrite) : FaultsFollow addr length prot t := by
  intro v code r u hv hr
  obtain ⟨w, hw, hflags, hprot⟩ := hview v hv
  obtain ⟨y, hy, hin, hyf, hyp⟩ := viewAt_some hw
  rw [← hyf] at hflags
  rw [← hyp] at hprot
  rw [vmmHandlePageFault_eq hl hy hin] at hr
  have hlow := alignDown_le v pageSize
  have hpage : UserPage (alignDown v pageSize) := by
    refine ⟨alignDown_aligned v, ?_⟩
    exact hlow.trans_lt (hl.userAddr (viewAt_isSome.mpr ⟨y, hy, hin⟩))
  split_ifs at hr with hacc
  · cases hr
    refine ⟨fun _ h0 => absurd h0 (by decide), fun _ => iff_of_true rfl ?_⟩
    rw [← hflags]
    simpa using hacc.2
  cases hr
  refine ⟨fun hnone h0 => ?_, fun hcode => iff_of_false (handleFault_ne_acces _ _ _ _) ?_⟩
  · rw [← protFlags_congr hprot]
    exact handleFault_first h.owns hpage hnone (Prod.ext h0 rfl)
  rw [← hflags]
  intro hno
  exact hacc ⟨hcode, by rw [hno]; rfl⟩

/-- **Main.** For every address space and every range covered by areas: after `vmm_mprotect`, the
faults in the range follow the new protection, whatever else happens in between, exactly when the
areas of the range allowed writing before if the new protection does and forbade it if it does not. -/
theorem mprotect_governs_iff (h : SpaceInv K L s) (hl : Listed s l) (ha : ∀ y ∈ l, y.2.Agrees)
    (hcov : CoveredBy l addr length) :
    (∀ t l', Later addr length (vmmMprotect addr length prot s).2 t → Listed t l' →
      (∀ p, InRange addr length p → viewAt l' p = viewAt l p) → FaultsFollow addr length prot t) ↔
    ∀ p w, InRange addr length p → viewAt l p = some w →
      hasFlag w.1 vmaWrite = hasFlag prot protWrite := by
  have hinv := vmmMprotect_owned h hl hcov prot
  have hl₁ : Listed (vmmMprotect addr length prot s).2 l := hl.setMachine _
  constructor
  · intro hfollow p w hp hw
    obtain ⟨y, hy, hin, hyf, -⟩ := viewAt_some hw
    have hnow : FaultsFollow addr length prot (vmmMprotect addr length prot s).2 :=
      hfollow _ l .refl hl₁ fun _ _ => rfl
    have hfault := vmmHandlePageFault_eq hl₁ hy hin 2
    rw [← hyf]
    cases hwrite : hasFlag y.2.flags vmaWrite with
    | false =>
      rw [hwrite, if_pos (by decide)] at hfault
      have hacc := (hnow p 2 _ _ hp hfault).2 (by decide)
      rw [hacc.mp rfl]
    | true =>
      rw [hwrite, if_neg (by decide)] at hfault
      have hacc := (hnow p 2 _ _ hp hfault).2 (by decide)
      by_contra hno
      exact handleFault_ne_acces _ _ _ _ (hacc.mpr (Bool.eq_false_iff.mpr fun hc => hno hc.symm))
  intro hsame t l' hlater hl' hviews
  obtain ⟨L', hinv'⟩ := hlater.owned hinv
  refine faultsFollow_of_view hinv' hl' fun v hv => ?_
  obtain ⟨w, hw⟩ := isSome_iff_exists.mp (hcov v hv)
  obtain ⟨y, hy, -, hyf, hyp⟩ := viewAt_some hw
  have hagree := ha y hy
  rw [Area.Agrees, hyf, hyp] at hagree
  have := hsame v w hv hw
  exact ⟨w, (hviews v hv).trans hw, this, hagree ▸ this⟩

end Govern

/-! ## Runs -/

section Run

variable {P : Type} {s t : Space P} {vmas vmas' : Heap Area}

def AllAgree (vmas : Heap Area) : Prop := ∀ p c, vmas p = some c → c.val.Agrees

lemma AllAgree.modify (h : AllAgree vmas)
    (hm : vmas.modify p f = some vmas') (hf : ∀ c, c.val.Agrees → (f c).val.Agrees) :
    AllAgree vmas' := by
  obtain ⟨c, hc, rfl⟩ := map_eq_some_iff.mp hm
  intro q d hd
  rw [update_apply] at hd
  split_ifs at hd
  · cases hd
    exact hf c (h p c hc)
  · exact h q d hd

lemma AllAgree.modifyIf (h : AllAgree vmas)
    (hm : modifyIf p f vmas = some vmas') (hf : ∀ c, c.val.Agrees → (f c).val.Agrees) :
    AllAgree vmas' := by
  unfold Obelisk.modifyIf at hm
  split_ifs at hm
  · cases hm
    exact h
  · exact h.modify hm hf

lemma AllAgree.free (h : AllAgree vmas) (q : ℕ) : AllAgree (update vmas q none) := by
  intro p c hc
  rw [update_apply] at hc
  split_ifs at hc
  exact h p c hc

lemma vmmFreeVma_agree {mm : Mm P} (h : AllAgree mm.vmas) (vma : ℕ) :
    AllAgree (vmmFreeVma vma mm).vmas := by
  unfold vmmFreeVma
  split_ifs
  · exact h
  · exact h.free vma

lemma vmmInsertVma_agree (h : AllAgree s.mm.vmas)
    (hr : vmmInsertVma vma s = some (r, t)) : AllAgree t.mm.vmas := by
  simp only [vmmInsertVma, bind_eq_bind, bind_eq_some_iff] at hr
  obtain ⟨v, -, ⟨prev, curr⟩, -, hr⟩ := hr
  dsimp only at hr
  split at hr
  · cases hr
    exact h
  split at hr
  · cases hr
    exact h
  simp only [bind_eq_some_iff] at hr
  obtain ⟨h1, hm1, h2, hm2, h3, hm3, hr⟩ := hr
  cases hr
  exact ((h.modify hm1 fun _ hc => hc).modifyIf hm2 fun _ hc => hc).modifyIf hm3 fun _ hc => hc

lemma vmmRemoveVma_agree (h : AllAgree s.mm.vmas) (hr : vmmRemoveVma vma s = some t) :
    AllAgree t.mm.vmas := by
  simp only [vmmRemoveVma, bind_eq_bind, bind_eq_some_iff] at hr
  obtain ⟨v, -, h1, hm1, h2, hm2, hr⟩ := hr
  cases hr
  exact (h.modifyIf hm1 fun _ hc => hc).modifyIf hm2 fun _ hc => hc

lemma vmmCreateVma_agree {q : ℕ} {mm mm' : Mm P}
    (h : AllAgree mm.vmas) (hc : vmmCreateVma start stop flags mm = (q, mm')) :
    (q = 0 → AllAgree mm'.vmas) ∧ ∀ f : Cell Area → Cell Area, q ≠ 0 →
      (∀ c, c.val.flags = flags → (f c).val.Agrees) →
      ∀ vmas', mm'.vmas.modify q f = some vmas' → AllAgree vmas' := by
  have hk : (kzalloc mm).2.vmas = mm.vmas := by
    unfold kzalloc
    cases mm.kallocs <;> rfl
  unfold vmmCreateVma at hc
  dsimp only at hc
  split_ifs at hc
  · cases hc
    exact ⟨fun _ => by rwa [hk], fun f h0 => absurd rfl h0⟩
  cases hc
  refine ⟨fun h0 => absurd h0 (by simp_all), fun f _ hf vmas' hm => ?_⟩
  dsimp only at hm
  rw [Heap.modify_of_some (update_self ..), update_idem, hk] at hm
  cases hm
  intro p c hc
  rw [update_apply] at hc
  split_ifs at hc
  · cases hc
    exact hf _ rfl
  · exact h p c hc

variable [FramePool P]

section

variable (h : AllAgree s.mm.vmas)
include h

lemma vmmMunmapArea_agree
    (hr : vmmMunmapArea start stop vma s = some t) : AllAgree t.mm.vmas := by
  simp only [vmmMunmapArea, bind_eq_bind, bind_eq_some_iff] at hr
  obtain ⟨v, hv, hr⟩ := hr
  generalize hs : s.setMachine _ = s1 at hr
  have h1 : AllAgree s1.mm.vmas := hs ▸ h
  have hv1 : v.val.Agrees := h vma v hv
  split at hr
  · obtain ⟨s2, hs2, hr⟩ := bind_eq_some_iff.mp hr
    cases hr
    exact vmmFreeVma_agree (vmmRemoveVma_agree h1 hs2) vma
  split at hr
  · rcases hc : vmmCreateVma stop v.val.stop v.val.flags s1.mm with ⟨q, mm'⟩
    rw [hc] at hr
    obtain ⟨hzero, hnew⟩ := vmmCreateVma_agree h1 hc
    dsimp only at hr
    split_ifs at hr with hq
    · cases hr
      exact hzero hq
    simp only [bind_eq_some_iff] at hr
    obtain ⟨m1, hm1, m2, hm2, ⟨r, s2⟩, hins, hr⟩ := hr
    cases hr
    have hagree := hnew _ hq (fun c hc => by
      show hasFlag c.val.flags vmaWrite = _
      rw [hc]
      exact hv1) m1 hm1
    have hcut : AllAgree m2 := hagree.modify hm2 fun _ hc => hc
    exact vmmInsertVma_agree hcut hins
  split at hr
  · obtain ⟨m1, hm1, hr⟩ := bind_eq_some_iff.mp hr
    cases hr
    exact h1.modify hm1 fun _ hc => hc
  obtain ⟨m1, hm1, hr⟩ := bind_eq_some_iff.mp hr
  cases hr
  exact h1.modify hm1 fun _ hc => hc

lemma vmmMunmapLoop_agree {n : ℕ}
    (hr : vmmMunmapLoop start stop n vma s = some t) : AllAgree t.mm.vmas := by
  induction n generalizing vma s with
  | zero => cases hr
  | succ n ih =>
    rw [vmmMunmapLoop] at hr
    split_ifs at hr
    · cases hr
      exact h
    simp only [bind_eq_bind, bind_eq_some_iff] at hr
    obtain ⟨v, -, hr⟩ := hr
    split_ifs at hr
    · cases hr
      exact h
    · obtain ⟨s1, hs1, hr⟩ := bind_eq_some_iff.mp hr
      exact ih (vmmMunmapArea_agree h hs1) hr
    · exact ih h hr

lemma vmmMunmap_agree (hr : vmmMunmap addr length s = some (r, t)) : AllAgree t.mm.vmas := by
  unfold vmmMunmap at hr
  split at hr
  · cases hr
    exact h
  obtain ⟨s1, hs1, hr⟩ := bind_eq_some_iff.mp hr
  cases hr
  exact vmmMunmapLoop_agree h hs1

lemma vmmMmapInsert_agree {r : ℕ} (hr : vmmMmapInsert vma start stop length prot flags file s = some (r, t)) :
    AllAgree t.mm.vmas := by
  simp only [vmmMmapInsert, bind_eq_bind, bind_eq_some_iff] at hr
  obtain ⟨⟨ret, s1⟩, hs1, hr⟩ := hr
  have h1 := vmmInsertVma_agree h hs1
  dsimp only at hr
  split_ifs at hr with hret hfile hok
  · cases hr
    exact vmmFreeVma_agree h1 vma
  · cases hr
    show AllAgree (vmmPopulate ..).2.vmas
    rwa [vmmPopulate_vmas]
  · obtain ⟨⟨r', s2⟩, hs2, hr⟩ := bind_eq_some_iff.mp hr
    cases hr
    refine vmmMunmap_agree ?_ hs2
    show AllAgree (vmmPopulate ..).2.vmas
    rwa [vmmPopulate_vmas]
  cases hr
  exact h1

end

lemma hasFlag_mmapFlags (prot flags : BitVec 32) :
    hasFlag (vmmMmapFlags prot flags) vmaWrite = hasFlag prot protWrite := by
  unfold vmmMmapFlags
  cases hasFlag prot protRead <;> cases hasFlag prot protWrite <;> cases hasFlag prot protExec <;>
    cases hasFlag flags mapShared <;> cases hasFlag flags mapPrivate <;>
    cases hasFlag flags mapAnonymous <;> rfl

lemma vmmMmapArea_agree {r : ℕ} (h : AllAgree s.mm.vmas)
    (hr : vmmMmapArea start stop length prot flags file offset s = some (r, t)) :
    AllAgree t.mm.vmas := by
  rcases hc : vmmCreateVma start stop (vmmMmapFlags prot flags) s.mm with ⟨q, mm'⟩
  obtain ⟨hzero, hnew⟩ := vmmCreateVma_agree h hc
  rw [vmmMmapArea, hc] at hr
  dsimp only at hr
  split_ifs at hr with hq
  · cases hr
    exact hzero hq
  obtain ⟨m1, hm1, hr⟩ := bind_eq_some_iff.mp hr
  refine vmmMmapInsert_agree (hnew _ hq (fun c hc => ?_) m1 hm1) hr
  show hasFlag c.val.flags vmaWrite = hasFlag prot protWrite
  rw [hc, hasFlag_mmapFlags]

lemma vmmMmap_agree {r : ℕ}
    (h : AllAgree s.mm.vmas) (hr : vmmMmap addr length prot flags file offset s = some (r, t)) :
    AllAgree t.mm.vmas := by
  have hsame : ∀ {x}, some (x, s) = some (r, t) → AllAgree t.mm.vmas := fun he => by
    cases he
    exact h
  unfold vmmMmap at hr
  split at hr
  · exact hsame hr
  split at hr
  · exact hsame hr
  obtain ⟨start, -, hr⟩ := bind_eq_some_iff.mp hr
  split at hr
  · exact hsame hr
  split at hr
  · exact hsame hr
  split at hr
  · obtain ⟨⟨ret, s1⟩, hs1, hr⟩ := bind_eq_some_iff.mp hr
    have h1 := vmmMunmap_agree h hs1
    dsimp only at hr
    split_ifs at hr
    · cases hr
      exact h1
    · exact vmmMmapArea_agree h1 hr
  obtain ⟨v, -, hr⟩ := bind_eq_some_iff.mp hr
  split_ifs at hr
  · exact hsame hr
  · exact vmmMmapArea_agree h hr

lemma vmmBrk_vmas (addr : ℕ) (s : Space P) : (vmmBrk addr s).2.mm.vmas = s.mm.vmas := by
  have hstep := vmmBrk_step addr s
  generalize vmmBrk addr s = r at hstep ⊢
  cases hstep with
  | same | shrink => rfl
  | @grow b m => cases b <;> rfl

lemma vmmHandlePageFault_vmas {code : BitVec 32}
    (hr : vmmHandlePageFault addr code s = some (r, t)) : t.mm.vmas = s.mm.vmas := by
  obtain ⟨vma, -, hr⟩ := bind_eq_some_iff.mp hr
  split_ifs at hr
  · cases hr
    rfl
  obtain ⟨v, -, hr⟩ := bind_eq_some_iff.mp hr
  split_ifs at hr
  · cases hr
    rfl
  cases hr
  rfl

lemma exec_agree {op : VmOp} (h : AllAgree s.mm.vmas) (hr : op.exec s = some t) :
    AllAgree t.mm.vmas := by
  cases op with
  | mmap addr length prot flags file offset =>
    obtain ⟨⟨r, t'⟩, ht, rfl⟩ := map_eq_some_iff.mp hr
    exact vmmMmap_agree h ht
  | munmap addr length =>
    obtain ⟨⟨r, t'⟩, ht, rfl⟩ := map_eq_some_iff.mp hr
    exact vmmMunmap_agree h ht
  | brk addr =>
    cases hr
    rwa [vmmBrk_vmas]
  | fault addr code =>
    obtain ⟨⟨r, t'⟩, ht, rfl⟩ := map_eq_some_iff.mp hr
    rwa [vmmHandlePageFault_vmas ht]

lemma vmRun_agree (h : AllAgree s.mm.vmas) (hr : vmRun ops s = some t) : AllAgree t.mm.vmas := by
  induction ops generalizing s with
  | nil =>
    cases hr
    exact h
  | cons op ops ih =>
    obtain ⟨s1, hs1, hr⟩ := bind_eq_some_iff.mp hr
    exact ih (exec_agree h hs1) hr

/-- **In every area of a run** flags and protection agree on writing. -/
theorem vmRun_agrees {l : List (ℕ × Area)} (h : AllAgree s.mm.vmas)
    (hr : vmRun ops s = some t) (hl : Listed t l) : ∀ y ∈ l, y.2.Agrees := by
  intro y hy
  obtain ⟨last, hseg⟩ := hl.seg
  obtain ⟨-, nx, pv, hcell⟩ := hseg.mem_some hy
  exact vmRun_agree h hr y.1 _ hcell

theorem mprotect_governs_iff_small : ∃ (s : Space PmmPool) (l : List (ℕ × Area)),
    vmRun [.mmap 0 0x1000 protWrite mapAnonymous 0 0]
      ⟨freshAddressSpace 2, (vmmCreateAddressSpace 1 smallMm).2⟩ = some s ∧ Listed s l ∧
    CoveredBy l 0x10000000 0x1000 ∧
    ((∀ t l', Later 0x10000000 0x1000 (vmmMprotect 0x10000000 0x1000 protRead s).2 t → Listed t l' →
      (∀ p, InRange 0x10000000 0x1000 p → viewAt l' p = viewAt l p) →
      FaultsFollow 0x10000000 0x1000 protRead t) ↔
    ∀ p w, InRange 0x10000000 0x1000 p → viewAt l p = some w →
      hasFlag w.1 vmaWrite = hasFlag protRead protWrite) := by
  obtain ⟨s, L, hs, -, hinv'⟩ := vmRun_owned smallMm_owned [.mmap 0 0x1000 protWrite mapAnonymous 0 0]
  obtain ⟨l, hl⟩ := hinv'.areas
  have hagree : AllAgree (vmmCreateAddressSpace 1 smallMm).2.vmas := by
    rw [show (vmmCreateAddressSpace 1 smallMm).2.vmas = fun _ => none from rfl]
    exact fun p c hc => nomatch hc
  have hcell : (vmRun [.mmap 0 0x1000 protWrite mapAnonymous 0 0]
      ⟨freshAddressSpace 2, (vmmCreateAddressSpace 1 smallMm).2⟩).map (fun s : Space PmmPool =>
        (s.as.vmaList, (s.mm.vmas s.as.vmaList).map fun c => (c.val.start, c.val.stop))) =
      some (192, some (0x10000000, 0x10001000)) := by decide +kernel
  rw [hs, map_some] at hcell
  obtain ⟨hhead, hcell⟩ := Prod.mk.inj (some.inj hcell)
  have hcov : CoveredBy l 0x10000000 0x1000 := by
    obtain ⟨c, hc, hval⟩ := map_eq_some_iff.mp hcell
    obtain ⟨hstart, hstop⟩ := Prod.mk.inj hval
    obtain ⟨last, hseg⟩ := hl.seg
    cases l with
    | nil =>
      have hzero := hseg.2
      rw [hhead] at hzero
      exact absurd hzero (by decide)
    | cons y l =>
      obtain ⟨hy, -, nx, hcell', -⟩ := hseg
      rw [hc] at hcell'
      cases hcell'
      intro p hp
      obtain ⟨h₁, h₂⟩ := hp
      rw [show alignDown 0x10000000 pageSize = 0x10000000 by decide] at h₁
      rw [show alignUp (u64 (0x10000000 + 0x1000)) pageSize = 0x10001000 by decide] at h₂
      exact viewAt_isSome.mpr ⟨y, List.mem_cons_self, hstart.trans_le h₁, h₂.trans_eq hstop.symm⟩
  exact ⟨s, l, hs, hl, hcov, mprotect_governs_iff hinv' hl (vmRun_agrees hagree hs hl) hcov⟩

/-- A page is mapped for writing, protected and then written to: the fault is not refused and maps the
page writable. -/
theorem mprotect_not_followed : hasFlag protRead protWrite = false ∧
    ((vmRun [.mmap 0 0x1000 protWrite mapAnonymous 0 0]
      ⟨freshAddressSpace 2, (vmmCreateAddressSpace 1 smallMm).2⟩).bind fun s : Space PmmPool =>
        let r := vmmMprotect 0x10000000 0x1000 protRead s
        (vmmHandlePageFault 0x10000000 2 r.2).map fun u =>
          (r.1, u.1, mmuGetFlags 2 0x10000000 u.2.mm.machine)) =
      some (0, 0, ptePresent ||| pteUser ||| pteWritable) := by
  decide +kernel

end Run

end Obelisk
