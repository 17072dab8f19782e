import Obelisk.Vmm.Brk
import Obelisk.Vmm.Run

/-!
# Unmapping is exact

`vmm_munmap` takes the rounded range out of what the addresses see, and every page of an area in the
range is unmapped, whatever the page table looks like: clearing an entry never maps an address.
-/

namespace Obelisk

open KLib Option

variable {mem : PhysMem} {e : Loc} {p start stop : ℕ}

lemma walkFrom_write_zero {l : Loc} {top : Bool} {f j : ℕ} {p : List ℕ}
    (h : walkFrom (mem.write e 0#64) top f p j = some l)
    (hp : pteIsPresent ((mem.write e 0#64).read l) = true) :
    walkFrom mem top f p j = some l ∧ l ≠ e := by
  induction p generalizing top f with
  | nil =>
    refine ⟨h, ?_⟩
    rintro rfl
    rw [PhysMem.read, PhysMem.write_self, pteIsPresent_zero] at hp
    exact Bool.noConfusion hp
  | cons i p ih =>
    rw [walkFrom] at h ⊢
    by_cases hfi : (f, i) = e
    · have hzero : mem.write e 0#64 f i = 0#64 := hfi ▸ PhysMem.write_self
      rw [hzero, pteIsHuge_zero, Bool.and_false, if_neg Bool.false_ne_true] at h
      have hnone : nextTable top 0#64 = none := by
        rw [nextTable, pteIsPresent_zero]
        rfl
      rw [hnone] at h
      cases h
    rw [PhysMem.write_of_ne hfi] at h
    split_ifs at h ⊢ with hhuge
    · refine ⟨h, ?_⟩
      cases h
      exact hfi
    obtain ⟨g, hg, hrest⟩ := bind_eq_some_iff.mp h
    obtain ⟨hwalk, hne⟩ := ih hrest
    exact ⟨by rw [hg, bind_some, hwalk], hne⟩

lemma entryAt_write_zero {root virt : ℕ} {w : BitVec 64} (h : entryAt (mem.write e 0#64) root virt = some w) :
    entryAt mem root virt = some w ∧ walkLoc mem root virt ≠ some e := by
  obtain ⟨l, ⟨hl, hp⟩, hw⟩ := entryAt_some.mp h
  obtain ⟨hwalk, hne⟩ := walkFrom_write_zero hl hp
  have hread : (mem.write e 0#64).read l = mem.read l := PhysMem.write_of_ne hne
  rw [hread] at hp hw
  refine ⟨entryAt_some.mpr ⟨l, ⟨hwalk, hp⟩, hw⟩, fun he => hne ?_⟩
  exact some.inj (Eq.trans (Eq.symm hwalk) he)

variable {P : Type} [FramePool P] {root : ℕ} {m m' m'' : Machine P}

def FewerEntries (root : ℕ) (m m' : Machine P) : Prop :=
  ∀ v w, entryAt m'.mem root v = some w → entryAt m.mem root v = some w

omit [FramePool P] in
lemma FewerEntries.trans (h : FewerEntries root m m') (h' : FewerEntries root m' m'') : FewerEntries root m m'' :=
  fun v w hw => h v w (h' v w hw)

lemma FewerEntries.resolve {v : ℕ} (h : FewerEntries root m m') (hv : mmuResolve root v m = 0) :
    mmuResolve root v m' = 0 := by
  rw [mmuResolve_eq] at hv ⊢
  cases hw : entryAt m'.mem root v with
  | none => rfl
  | some w =>
    rwa [h v w hw] at hv

lemma unmapPage_fewer (root addr : ℕ) (m : Machine P) : FewerEntries root m (unmapPage root addr m) := by
  intro v w hw
  rw [unmapPage, mmuUnmap_eq] at hw
  dsimp only at hw
  split_ifs at hw
  · split at hw
    · exact hw
    · split_ifs at hw
      · exact (entryAt_write_zero hw).1
      · exact hw
  · exact hw

lemma unmapPage_self {addr : ℕ} (ha : addr % pageSize = 0) (hlt : addr < 2 ^ 64) (m : Machine P) :
    mmuResolve root addr (unmapPage root addr m) = 0 := by
  by_cases hres : mmuResolve root addr m = 0
  · exact (unmapPage_fewer root addr m).resolve hres
  have hnone : entryAt (unmapPage root addr m).mem root addr = none := by
    rw [unmapPage, mmuUnmap_eq, alignDown_of_aligned ha hlt]
    dsimp only
    rw [if_pos hres]
    cases hl : walkLoc m.mem root addr with
    | none =>
      rw [mmuResolve_eq, entryAt, hl] at hres
      exact absurd rfl hres
    | some l =>
      by_cases hp : pteIsPresent (m.mem.read l) = true
      · dsimp only
        rw [if_pos hp]
        by_contra hsome
        obtain ⟨w, hw⟩ := ne_none_iff_exists'.mp hsome
        exact (entryAt_write_zero hw).2 hl
      rw [mmuResolve_eq, entryAt, hl, bind_some, if_neg hp] at hres
      exact absurd rfl hres
  rw [mmuResolve_eq, hnone]

lemma unmapRange_fewer (root start stop : ℕ) (m : Machine P) :
    FewerEntries root m (unmapRange root start stop m) :=
  forRange_inv (fun _ t => FewerEntries root m t) (fun _ _ h => h) fun _ t _ _ ht =>
    ht.trans (unmapPage_fewer root _ t)

lemma unmapRange_resolve (hstart : start % pageSize = 0) (hp : p % pageSize = 0)
    (h1 : start ≤ p) (h2 : p < stop) (hlt : p < 2 ^ 64) (m : Machine P) :
    mmuResolve root p (unmapRange root start stop m) = 0 := by
  obtain ⟨i, hi, rfl⟩ := pageIn_of_aligned hstart hp h1 h2
  have hloop := forRange_inv (i := 0) (n := pageCount start stop) (s := m)
    (f := fun i => unmapPage root (start + i * pageSize))
    (fun k t => i < k → mmuResolve root (start + i * pageSize) t = 0)
    nofun fun k t _ _ ht hk => by
      obtain hik | rfl := Nat.lt_succ_iff_lt_or_eq.mp hk
      · exact (unmapPage_fewer root _ t).resolve (ht hik)
      · exact unmapPage_self hp hlt t
  exact hloop (by omega)

lemma unmapAreas_fewer (root start stop : ℕ) (l : List (ℕ × Area)) (m : Machine P) :
    FewerEntries root m (unmapAreas root start stop l m) := by
  induction l generalizing m with
  | nil => exact fun _ _ h => h
  | cons y l ih =>
    rw [unmapAreas]
    split_ifs
    · exact fun _ _ h => h
    · exact (unmapRange_fewer root _ _ m).trans (ih _)
    · exact ih m

lemma unmapAreas_resolve (has : start % pageSize = 0) {l : List (ℕ × Area)}
    (hok : ∀ y ∈ l, y.2.Aligned) (ho : Ordered l) (hp : p % pageSize = 0) (h1 : start ≤ p)
    (h2 : p < stop) (hlt : p < 2 ^ 64) (hin : (viewAt l p).isSome) (m : Machine P) :
    mmuResolve root p (unmapAreas root start stop l m) = 0 := by
  induction l generalizing m with
  | nil => cases hin
  | cons y l ih =>
    obtain ⟨x, a⟩ := y
    have ha := hok (x, a) List.mem_cons_self
    obtain ⟨hafter, ho⟩ := List.pairwise_cons.mp ho
    have ih := ih (fun z hz => hok z (List.mem_cons_of_mem _ hz)) ho
    rw [viewAt_cons] at hin
    rw [unmapAreas]
    by_cases hv : a.start ≤ p ∧ p < a.stop
    · rw [if_neg (not_le.mpr (hv.1.trans_lt h2)), if_pos (h1.trans_lt hv.2)]
      refine (unmapAreas_fewer root start stop l _).resolve
        (unmapRange_resolve ?_ hp (max_le hv.1 h1) (lt_min hv.2 h2) hlt m)
      rcases max_choice a.start start with h | h
      · rw [h]
        exact ha.start_aligned
      rwa [h]
    have hrest : (viewAt l p).isSome := by
      rwa [Area.view_of_not hv] at hin
    by_cases hdone : stop ≤ a.start
    · -- the areas behind this one start behind the range
      have hnone : viewAt l p = none := viewAt_of_lt fun y hy =>
        (h2.trans_le hdone).trans_le (ha.le.trans (hafter y hy))
      rw [hnone] at hrest
      cases hrest
    rw [if_neg hdone]
    split_ifs
    · exact ih hrest _
    · exact ih hrest m

/-- **Main.** For sorted, disjoint and page-aligned areas and a range whose end does not wrap when it
is rounded up: if the allocation succeeds that a split needs, `vmm_munmap` returns `0` and leaves such
areas; the addresses of the rounded range see nothing and the others what they saw before, and no page
of an area in the range is mapped. -/
theorem vmm_munmap_exact {s : Space P} {l : List (ℕ × Area)} (h : Linked s l) {addr length : ℕ}
    (hwrap : addr + length + (pageSize - 1) < 2 ^ 64)
    (hsplit : ∀ y ∈ l, y.2.start < alignDown addr pageSize →
      alignUp (addr + length) pageSize < y.2.stop → CanAlloc s.mm) :
    ∃ t l', vmmMunmap addr length s = some (0, t) ∧ Linked t l' ∧ (∀ a, viewAt l' a =
        if alignDown addr pageSize ≤ a ∧ a < alignUp (addr + length) pageSize then none
        else viewAt l a) ∧
      ∀ p, p % pageSize = 0 → alignDown addr pageSize ≤ p → p < alignUp (addr + length) pageSize →
        (viewAt l p).isSome → mmuResolve t.as.pt p t.mm.machine = 0 := by
  have hlt : addr + length < 2 ^ 64 := lt_of_le_of_lt le_self_add hwrap
  have hrange : rangeEnd addr length (2 ^ 64 - 1) = some (addr + length) := by
    rw [rangeEnd, if_neg (by omega), if_neg (by omega)]
  have has := alignDown_aligned addr
  have hup : addr + length ≤ alignUp (addr + length) pageSize := by
    have hround := alignUp_two_pow (show addr + length + (2 ^ 12 - 1) < 2 ^ 64 from hwrap) (show 12 ≤ 64 by decide)
    have hpage : alignUp (addr + length) pageSize = alignUp (addr + length) (2 ^ 12) := rfl
    rw [hpage, hround]
    omega
  have hle : alignDown addr pageSize ≤ alignUp (addr + length) pageSize :=
    (alignDown_le addr pageSize).trans (Nat.le_of_add_right_le hup)
  obtain ⟨t, l', ht, hl, -, hview, hao⟩ := vmmMunmapLoop_spec hle has (alignUp_cases hlt).1
    (show Linked s ([] ++ l) from h) (lt_add_one _)
  refine ⟨t, l', ?_, hl, hview hsplit, fun p hp h₁ h₂ hin => ?_⟩
  · rw [vmmMunmap, hrange]
    dsimp only
    rw [h.head, h.count, ht]
    rfl
  have hp64 : p < 2 ^ 64 := h₂.trans (alignDown_lt _ pageSize (by decide))
  have hpt : t.as.pt = s.as.pt := hao.pt
  have hmachine : t.mm.machine = _ := hao.machine
  rw [hpt, hmachine]
  exact unmapAreas_resolve has h.ok h.ordered hp h₁ h₂ hp64 hin s.mm.machine

theorem vmm_munmap_exact_small : ∃ (s : Space PmmPool) (l : List (ℕ × Area)), Linked s l ∧
    CanAlloc s.mm ∧ ∃ t l', vmmMunmap 0x10001234 0x10 s = some (0, t) ∧ Linked t l' ∧
      viewAt l' 0x10001000 = none ∧ viewAt l' 0x10002000 = viewAt l 0x10002000 := by
  have hnew : (vmmCreateAddressSpace 1 smallMm).1 = some (freshAddressSpace 2) := by decide +kernel
  obtain ⟨s, l, hs, hl, -⟩ := exec_listed (vmmCreateAddressSpace_listed hnew)
    (.mmap 0 0x3000 protWrite mapAnonymous 0 0)
  have hkallocs : (VmOp.exec (.mmap 0 0x3000 protWrite mapAnonymous 0 0)
      ⟨freshAddressSpace 2, (vmmCreateAddressSpace 1 smallMm).2⟩).map
        (fun s : Space PmmPool => (s.mm.kallocs, (s.mm.vmas 256).isNone)) =
      some ([256, 320], true) := by decide +kernel
  rw [hs, map_some] at hkallocs
  obtain ⟨hk, hnone⟩ := Prod.mk.inj (some.inj hkallocs)
  have hcan : CanAlloc s.mm :=
    ⟨256, [320], hk, by decide, by decide, isNone_iff_eq_none.mp hnone⟩
  obtain ⟨t, l', ht, hl', hview, -⟩ := vmm_munmap_exact hl.linked
    (show 0x10001234 + 0x10 + (pageSize - 1) < 2 ^ 64 by decide) fun _ _ _ _ => hcan
  refine ⟨s, l, hl.linked, hcan, t, l', ht, hl', ?_, ?_⟩
  · rw [hview]
    exact if_pos (by decide)
  rw [hview]
  exact if_neg (by decide)

end Obelisk
