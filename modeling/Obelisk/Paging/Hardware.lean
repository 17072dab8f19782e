import Obelisk.Paging.Refine

/-!
# The walk of the processor

`hwWalk` is the four-level walk of x86-64 as the processor does it: nine bits of the address select
an entry at each level, an entry that is not present ends the walk without a translation, and a
present entry of a middle level with the `PS` bit maps a page of 1 GiB or 2 MiB. Permissions and
reserved bits are left out.
-/

namespace Obelisk

open KLib List Option

variable {mem : PhysMem} {root virt : ℕ} {r : HwLeaf}

/-- Where a walk ends: the entries on the way, the entry that maps the page, and the number of bits
of the offset in it. -/
structure HwLeaf where
  above : List Loc
  loc : Loc
  bits : ℕ
  deriving DecidableEq

def hwWalkFrom (mem : PhysMem) (virt : ℕ) : List ℕ → ℕ → Option HwLeaf
  | [], _ => none
  | s :: levels, table =>
    let loc := (table, virt / 2 ^ s % 512)
    let entry := mem.read loc
    if !entry.getLsbD 0 then none
    else if levels.isEmpty || (s != 39 && entry.getLsbD 7) then some ⟨[], loc, s⟩
    else (hwWalkFrom mem virt levels (entry.toNat / 2 ^ 12 % 2 ^ 40)).map fun r =>
      { r with above := loc :: r.above }

def hwWalk (mem : PhysMem) (cr3 virt : ℕ) : Option HwLeaf :=
  hwWalkFrom mem virt [39, 30, 21, 12] cr3

def HwLeaf.addr (mem : PhysMem) (r : HwLeaf) (virt : ℕ) : ℕ :=
  (mem.read r.loc).toNat / 2 ^ r.bits % 2 ^ (52 - r.bits) * 2 ^ r.bits + virt % 2 ^ r.bits

def hwTranslate (mem : PhysMem) (cr3 virt : ℕ) : Option ℕ :=
  (hwWalk mem cr3 virt).map fun r => r.addr mem virt

def HwLeaf.crossed (r : HwLeaf) : List Loc := r.above ++ [r.loc]

def Canonical (virt : ℕ) : Prop := virt < 2 ^ 47 ∨ (2 ^ 64 - 2 ^ 47 ≤ virt ∧ virt < 2 ^ 64)

instance (virt : ℕ) : Decidable (Canonical virt) := inferInstanceAs (Decidable (_ ∨ _))

lemma canonical_page_eq {v w : ℕ} (hv : Canonical v) (hw : Canonical w)
    (hp : pathOf v = pathOf w) (hi : ptIndex v = ptIndex w) : v / 4096 = w / 4096 := by
  simp only [pathOf, pml4Index, pdptIndex, pdIndex, ptIndex, List.cons.injEq, and_true, tableIndex_eq] at hp hi
  simp only [Canonical] at hv hw
  omega

/-! ## The walk of the source -/

lemma pteTable_eq (e : BitVec 64) : pteTable e = e.toNat / 2 ^ 12 % 2 ^ 40 := by
  rw [pteTable, physToPfn, Nat.shiftRight_eq_div_pow, pteGetFrame, toNat_and_pageFrameMask]
  omega

lemma hwWalkFrom_cons (mem : PhysMem) (virt s s' : ℕ) (levels : List ℕ) (f : ℕ) :
    (hwWalkFrom mem virt (s :: s' :: levels) f).map HwLeaf.loc =
      if s != 39 && pteIsHuge (mem f (virt / 2 ^ s % 512)) then
        (if pteIsPresent (mem f (virt / 2 ^ s % 512)) then some (f, virt / 2 ^ s % 512) else none)
      else (nextTable (s == 39) (mem f (virt / 2 ^ s % 512))).bind fun g =>
        (hwWalkFrom mem virt (s' :: levels) g).map HwLeaf.loc := by
  obtain ⟨e, he⟩ : ∃ e, mem f (virt / 2 ^ s % 512) = e := ⟨_, rfl⟩
  have hread : mem.read (f, virt / 2 ^ s % 512) = e := he
  simp only [hwWalkFrom, nextTable, hread, he, pteIsHuge_eq, pteIsPresent_eq, pteTable_eq]
  cases e.getLsbD 0 with
  | false => simp
  | true => cases e.getLsbD 7 with
    | false => simp [Function.comp_def]
    | true =>
      by_cases hs : s = 39
      · simp [hs, Function.comp_def]
      · simp [hs]

lemma hwWalkFrom_last (mem : PhysMem) (virt f : ℕ) : (hwWalkFrom mem virt [12] f).map HwLeaf.loc =
      if pteIsPresent (mem f (ptIndex virt)) then some (f, ptIndex virt) else none := by
  rw [ptIndex, tableIndex_eq]
  obtain ⟨e, he⟩ : ∃ e, mem f (virt / 2 ^ 12 % 512) = e := ⟨_, rfl⟩
  have hread : mem.read (f, virt / 2 ^ 12 % 512) = e := he
  simp only [hwWalkFrom, hread, he, pteIsPresent_eq]
  cases e.getLsbD 0 <;> simp

lemma walkFrom_filter (mem : PhysMem) (top : Bool) (f i : ℕ) (p : List ℕ) (j : ℕ) :
    (walkFrom mem top f (i :: p) j).filter (fun l => pteIsPresent (mem.read l)) =
      if !top && pteIsHuge (mem f i) then (if pteIsPresent (mem f i) then some (f, i) else none)
      else (nextTable top (mem f i)).bind fun g =>
        (walkFrom mem false g p j).filter fun l => pteIsPresent (mem.read l) := by
  rw [walkFrom]
  split_ifs with hstop hp
  · rw [filter_some]
    exact if_pos hp
  · rw [filter_some]
    exact if_neg hp
  · cases nextTable top (mem f i) <;> rfl

/-- **The walk of the source ends where the processor's does**, at a present entry or not at all. -/
theorem hwWalk_loc (mem : PhysMem) (root virt : ℕ) : (hwWalk mem root virt).map HwLeaf.loc =
    (walkLoc mem root virt).filter fun l => pteIsPresent (mem.read l) := by
  have hidx : ∀ s, virt / 2 ^ s % 512 = tableIndex s virt := fun s => (tableIndex_eq s virt).symm
  have hlast : ∀ pt, (hwWalkFrom mem virt [12] pt).map HwLeaf.loc =
      (walkFrom mem false pt [] (ptIndex virt)).filter fun l => pteIsPresent (mem.read l) :=
    fun pt => by
      rw [hwWalkFrom_last, walkFrom, filter_some]
      rfl
  rw [hwWalk, walkLoc, pathOf, walkFrom_filter, hwWalkFrom_cons, hidx]
  congr 1
  refine congrArg (Option.bind _) (funext fun pdpt => ?_)
  rw [walkFrom_filter, hwWalkFrom_cons, hidx]
  congr 1
  refine congrArg (Option.bind _) (funext fun pd => ?_)
  rw [walkFrom_filter, hwWalkFrom_cons, hidx]
  congr 1
  exact congrArg (Option.bind _) (funext hlast)

lemma entryAt_hwWalk (mem : PhysMem) (root virt : ℕ) :
    entryAt mem root virt = (hwWalk mem root virt).map fun r => mem.read r.loc := by
  have hmap : (hwWalk mem root virt).map (fun r => mem.read r.loc) =
      ((hwWalk mem root virt).map HwLeaf.loc).map mem.read := by
    rw [Option.map_map]
    rfl
  rw [hmap, hwWalk_loc, entryAt]
  cases walkLoc mem root virt with
  | none => rfl
  | some l =>
    rw [bind_some, filter_some]
    split_ifs <;> rfl

lemma hwWalk_bits (h : hwWalk mem root virt = some r) :
    r.bits = 30 ∨ r.bits = 21 ∨ r.bits = 12 := by
  have hlast : ∀ {f : ℕ} {r : HwLeaf}, hwWalkFrom mem virt [12] f = some r → r.bits = 12 := by
    intro f r h
    simp only [hwWalkFrom, isEmpty_nil, Bool.true_or, if_true] at h
    split_ifs at h
    rw [← some.inj h]
  have hstep : ∀ {s s' f : ℕ} {levels : List ℕ} {r : HwLeaf}, hwWalkFrom mem virt (s :: s' :: levels) f = some r →
      (s ≠ 39 ∧ r.bits = s) ∨ ∃ g r', hwWalkFrom mem virt (s' :: levels) g = some r' ∧
        r'.bits = r.bits := by
    intro s s' f levels r h
    rw [hwWalkFrom] at h
    split_ifs at h with h0 h7
    · rw [← some.inj h]
      simp only [isEmpty_cons, Bool.false_or, Bool.and_eq_true, bne_iff_ne] at h7
      exact .inl ⟨h7.1, rfl⟩
    obtain ⟨r', hr', rfl⟩ := map_eq_some_iff.mp h
    exact .inr ⟨_, r', hr', rfl⟩
  obtain ⟨h39, -⟩ | ⟨_, r1, h1, e1⟩ := hstep h
  · exact absurd rfl h39
  obtain ⟨-, e⟩ | ⟨_, r2, h2, e2⟩ := hstep h1
  · exact .inl (e1.symm.trans e)
  obtain ⟨-, e⟩ | ⟨_, r3, h3, e3⟩ := hstep h2
  · exact .inr (.inl ((e2.trans e1).symm.trans e))
  · exact .inr (.inr (((e3.trans e2).trans e1).symm.trans (hlast h3)))

/-- The bits of the entry between the offset of a 4 KiB page and the offset of its page are those
of the address. -/
def HwLeaf.Exact (mem : PhysMem) (r : HwLeaf) (virt : ℕ) : Prop :=
  (mem.read r.loc).toNat / 2 ^ 12 % 2 ^ (r.bits - 12) = virt / 2 ^ 12 % 2 ^ (r.bits - 12)

lemma or_pageOffset (f v : ℕ) : f * 4096 ||| (v &&& 0xFFF) = f * 4096 + v % 4096 := by
  rw [show 0xFFF = 2 ^ 12 - 1 by norm_num, Nat.and_two_pow_sub_one_eq_mod,
    show (4096 : ℕ) = 2 ^ 12 by norm_num, mul_comm f]
  exact (Nat.two_pow_add_eq_or_of_lt (Nat.mod_lt _ (by norm_num)) f).symm

variable {P : Type} [FramePool P]

lemma mmuResolve_hwWalk (root virt : ℕ) (m : Machine P) : mmuResolve root virt m = match hwWalk m.mem root virt with
    | none => 0
    | some r => (m.mem.read r.loc).toNat / 2 ^ 12 % 2 ^ 40 * 4096 + virt % 4096 := by
  rw [mmuResolve_eq, entryAt_hwWalk]
  cases hwWalk m.mem root virt with
  | none => rfl
  | some r =>
    show pteGetFrame _ ||| _ = _
    rw [pteGetFrame_eq, pteTable_eq, or_pageOffset]

lemma HwLeaf.exact_iff (h : hwWalk mem root virt = some r) : r.Exact mem virt ↔
      (mem.read r.loc).toNat / 2 ^ 12 % 2 ^ 40 * 4096 + virt % 4096 = r.addr mem virt := by
  have hbits := hwWalk_bits h
  rw [Exact, addr]
  obtain ⟨above, loc, bits⟩ := r
  dsimp only at hbits ⊢
  rcases hbits with rfl | rfl | rfl
  · norm_num
    omega
  · norm_num
    omega
  norm_num
  omega

lemma HwLeaf.mem_crossed_self (r : HwLeaf) : r.loc ∈ r.crossed :=
  mem_append_right _ (mem_singleton_self _)

/-- **Clearing an entry** ends the walks that cross it and no others. -/
theorem hwWalkFrom_write_zero (mem : PhysMem) (l : Loc) (virt : ℕ) (levels : List ℕ) (f : ℕ) :
    hwWalkFrom (mem.write l 0#64) virt levels f =
      (hwWalkFrom mem virt levels f).filter fun r => decide (l ∉ r.crossed) := by
  induction levels generalizing f with
  | nil => rfl
  | cons s levels ih =>
    by_cases hl : (f, virt / 2 ^ s % 512) = l
    · have hzero : (mem.write l 0#64).read (f, virt / 2 ^ s % 512) = 0#64 := by
        rw [hl]
        exact PhysMem.write_self
      have hcross : ∀ r, hwWalkFrom mem virt (s :: levels) f = some r → l ∈ r.crossed := by
        intro r h
        rw [hwWalkFrom] at h
        split_ifs at h
        · rw [← some.inj h, ← hl]
          exact HwLeaf.mem_crossed_self _
        obtain ⟨r', -, rfl⟩ := map_eq_some_iff.mp h
        rw [← hl]
        exact mem_cons_self
      have hnone : (hwWalkFrom mem virt (s :: levels) f).filter
          (fun r => decide (l ∉ r.crossed)) = none := by
        rw [filter_eq_none_iff]
        intro r hr
        simp [hcross r hr]
      rw [hnone, hwWalkFrom]
      simp only [hzero]
      rfl
    have hsame : (mem.write l 0#64).read (f, virt / 2 ^ s % 512) =
        mem.read (f, virt / 2 ^ s % 512) := PhysMem.write_of_ne hl
    rw [hwWalkFrom, hwWalkFrom]
    simp only [hsame, ih]
    split_ifs
    · rfl
    · rw [filter_some]
      simp [HwLeaf.crossed, Ne.symm hl]
    cases hwWalkFrom mem virt levels _ with
    | none => rfl
    | some r =>
      rw [map_some, filter_some, filter_some]
      by_cases hr : l ∈ r.crossed
      · rw [if_neg (by simpa using hr), if_neg]
        · rfl
        · rw [decide_eq_true_iff, not_not]
          exact mem_cons_of_mem _ hr
      rw [if_pos (by simpa using hr), if_pos]
      · rfl
      · exact decide_eq_true (not_mem_cons_of_ne_of_not_mem (Ne.symm hl) hr)

lemma hwTranslate_write_zero_iff (mem : PhysMem) (root virt : ℕ) (l : Loc) :
    hwTranslate (mem.write l 0#64) root virt = hwTranslate mem root virt ↔
      ∀ r, hwWalk mem root virt = some r → l ∉ r.crossed := by
  rw [hwTranslate, hwTranslate, hwWalk, hwWalkFrom_write_zero]
  show _ = (hwWalk mem root virt).map _ ↔ _
  rw [← hwWalk]
  cases hwWalk mem root virt with
  | none => exact iff_of_true rfl nofun
  | some r =>
    rw [filter_some, map_some]
    by_cases hl : l ∈ r.crossed
    · refine iff_of_false ?_ fun h => h r rfl hl
      rw [if_neg (by simpa using hl)]
      exact nofun
    refine iff_of_true ?_ fun r' hr' => some.inj hr' ▸ hl
    have hne : r.loc ≠ l := fun he => hl (he ▸ r.mem_crossed_self)
    have hread : (mem.write l 0#64).read r.loc = mem.read r.loc := PhysMem.write_of_ne hne
    rw [if_pos (by simpa using hl), map_some, HwLeaf.addr, HwLeaf.addr, hread]

lemma mmuUnmap_hwWalk (hv : virt < 2 ^ 64) (root : ℕ) (m : Machine P) :
    (mmuUnmap root virt m).2.mem = match hwWalk m.mem root virt with
      | none => m.mem
      | some r => m.mem.write r.loc 0#64 := by
  rw [mmuUnmap_eq, walkLoc_page (alignDown_page hv)]
  have hloc := hwWalk_loc m.mem root virt
  cases hl : walkLoc m.mem root virt with
  | none =>
    rw [hl, filter_none, map_eq_none_iff] at hloc
    rw [hloc]
  | some l =>
    rw [hl, filter_some] at hloc
    dsimp only
    split_ifs at hloc ⊢ with hp
    · obtain ⟨r, hr, rfl⟩ := map_eq_some_iff.mp hloc
      rw [hr]
    · rw [map_eq_none_iff.mp hloc]

/-- **Main.** For a canonical address, `mmu_resolve` returns the address that the processor
translates it to and `mmu_unmap` of its page changes the translation of no address outside the page,
exactly when the entry that maps the address has the address's own bits below its page size (a 4 KiB
page has none there) and no translation of an address outside the page crosses that entry. -/
theorem mmu_hardware_iff (root : ℕ) (m : Machine P) {virt : ℕ} (hc : Canonical virt) :
    (mmuResolve root virt m = (hwTranslate m.mem root virt).getD 0 ∧ ∀ w, Canonical w → w / 4096 ≠ virt / 4096 →
        hwTranslate (mmuUnmap root virt m).2.mem root w = hwTranslate m.mem root w) ↔
    ∀ r, hwWalk m.mem root virt = some r → r.Exact m.mem virt ∧ ∀ w, Canonical w → w / 4096 ≠ virt / 4096 →
        ∀ r', hwWalk m.mem root w = some r' → r.loc ∉ r'.crossed := by
  have hlt : virt < 2 ^ 64 := by
    rcases hc with h | h
    · omega
    · exact h.2
  rw [mmuResolve_hwWalk, mmuUnmap_hwWalk hlt, hwTranslate]
  cases hr : hwWalk m.mem root virt with
  | none => exact iff_of_true ⟨rfl, fun _ _ _ => rfl⟩ nofun
  | some r =>
    have hexact := HwLeaf.exact_iff hr
    simp only [map_some, getD_some, hwTranslate_write_zero_iff, some.injEq, forall_eq']
    rw [hexact]

lemma PageTree.hwWalkFrom_spec (ht : PageTree root mem)
    {levels p : List ℕ} {f : ℕ} (hlen : p.length + levels.length = 4) (hp : IsPath p)
    (h39 : ∀ s rest, levels = s :: rest → (s = 39 ↔ p = []) ∧ 39 ∉ rest)
    (hf : tableAt mem root p = some f) (h : hwWalkFrom mem virt levels f = some r) :
    levels.getLast? = some r.bits ∧
      ∀ l ∈ r.above, ∃ q, IsPath q ∧ q.length ≠ 3 ∧ tableAt mem root q = some l.1 := by
  induction levels generalizing p f r with
  | nil => cases h
  | cons s levels ih =>
    obtain ⟨hs, hrest⟩ := h39 s levels rfl
    rw [hwWalkFrom] at h
    obtain ⟨e, he⟩ : ∃ e, mem f (virt / 2 ^ s % 512) = e := ⟨_, rfl⟩
    have hread : mem.read (f, virt / 2 ^ s % 512) = e := he
    rw [length_cons] at hlen
    cases levels with
    | nil =>
      simp only [isEmpty_nil, Bool.true_or, if_true] at h
      split_ifs at h
      rw [← some.inj h]
      exact ⟨rfl, by simp⟩
    | cons s' levels =>
      rw [length_cons] at hlen
      have hpath : IsPath (p ++ [virt / 2 ^ s % 512]) := by
        refine ⟨by rw [length_append, length_singleton]; omega, fun i hi => ?_⟩
        rcases mem_append.mp hi with hi | hi
        · exact hp.2 i hi
        rw [mem_singleton.mp hi]
        omega
      simp only [hread, isEmpty_cons, Bool.false_or] at h
      split_ifs at h with h0 h7
      · -- a huge entry of a middle level
        rw [Bool.and_eq_true, bne_iff_ne] at h7
        have hno := ht.no_huge p f _ hpath (fun hp0 => h7.1 (hs.mpr hp0)) hf
        rw [he, pteIsHuge_eq, h7.2] at hno
        cases hno
      obtain ⟨r', hr', rfl⟩ := map_eq_some_iff.mp h
      have hnext : tableAt mem root (p ++ [virt / 2 ^ s % 512]) = some (e.toNat / 2 ^ 12 % 2 ^ 40) := by
        refine tableAt_append_some.mpr ⟨f, hf, nextTable_some.mpr ⟨?_, ?_, ?_⟩⟩
        · rw [he, pteIsPresent_eq]
          simpa using h0
        · by_cases hp0 : p = []
          · exact .inl (by rw [hp0]; rfl)
          · exact .inr (ht.no_huge p f _ hpath hp0 hf)
        · rw [he, pteTable_eq]
      obtain ⟨hlast, habove⟩ := ih (p := p ++ [virt / 2 ^ s % 512])
        (by rw [length_append, length_singleton, length_cons]; omega) hpath
        (fun t rest het => by
          obtain ⟨rfl, rfl⟩ := List.cons.inj het
          rw [mem_cons, not_or] at hrest
          exact ⟨iff_of_false (Ne.symm hrest.1) (by simp), hrest.2⟩) hnext hr'
      refine ⟨hlast, fun l hl => ?_⟩
      rcases mem_cons.mp hl with rfl | hl
      · exact ⟨p, hp, by omega, hf⟩
      · exact habove l hl

/-- **In a page table whose tables are distinct frames without huge entries** the entry of an
address maps its 4 KiB page and nothing else. -/
theorem PageTree.hwWalk_private (ht : PageTree root mem)
    (hc : Canonical virt) (hr : hwWalk mem root virt = some r) :
    r.Exact mem virt ∧ ∀ w, Canonical w → w / 4096 ≠ virt / 4096 →
      ∀ r', hwWalk mem root w = some r' → r.loc ∉ r'.crossed := by
  have hspec : ∀ {v : ℕ} {r : HwLeaf}, hwWalk mem root v = some r → 12 = r.bits ∧
      ∀ l ∈ r.above, ∃ q, IsPath q ∧ q.length ≠ 3 ∧ tableAt mem root q = some l.1 := by
    intro v r h
    obtain ⟨hlast, habove⟩ := ht.hwWalkFrom_spec (p := []) rfl isPath_nil (fun s rest he => by
        obtain ⟨rfl, rfl⟩ := List.cons.inj he
        exact ⟨iff_of_true rfl rfl, by decide⟩) rfl h
    exact ⟨some.inj hlast, habove⟩
  have hloc : ∀ {v : ℕ} {r : HwLeaf}, hwWalk mem root v = some r →
      walkLoc mem root v = some r.loc := by
    intro v r h
    have hl := hwWalk_loc mem root v
    rw [h, map_some] at hl
    exact (filter_eq_some_iff.mp hl.symm).1
  refine ⟨?_, fun w hw hne r' hr' hmem => ?_⟩
  · rw [HwLeaf.Exact, ← (hspec hr).1, Nat.sub_self, pow_zero, Nat.mod_one, Nat.mod_one]
  obtain ⟨htab, -⟩ := ht.walkLoc_some (hloc hr)
  rcases mem_append.mp hmem with hm | hm
  · -- an entry of an upper level is in another table
    obtain ⟨q, hq, hq3, hqt⟩ := (hspec hr').2 _ hm
    exact hq3 (ht.levelSep _ _ _ hq (isPath_pathOf virt) hqt htab)
  rw [mem_singleton] at hm
  obtain ⟨htab', hi'⟩ := ht.walkLoc_some (hloc hr')
  rw [← hm] at htab' hi'
  obtain ⟨-, hi⟩ := ht.walkLoc_some (hloc hr)
  have hpath := ht.distinct _ _ _ (isPath_pathOf w) (isPath_pathOf virt) htab' htab
  exact hne (canonical_page_eq hw hc hpath (hi'.symm.trans hi))

theorem mmu_hardware_iff_small : let m := (mmuMap 1 0x401000 0x5000 pteUser smallMachine).2
    hwTranslate m.mem 1 0x401abc = some 0x5abc ∧ mmuResolve 1 0x401abc m = (hwTranslate m.mem 1 0x401abc).getD 0 ∧
      ∀ w, Canonical w → w / 4096 ≠ 0x401abc / 4096 →
        hwTranslate (mmuUnmap 1 0x401abc m).2.mem 1 w = hwTranslate m.mem 1 w := by
  intro m
  have hinv : PtInv 1 m :=
    (mmuMap_refines ⟨smallMachine_tree, smallMachine_used⟩ 0x401000 0x5000 pteUser).1
  refine ⟨by decide +kernel, (mmu_hardware_iff 1 m (by decide)).mpr fun r hr => ?_⟩
  exact hinv.tree.hwWalk_private (by decide) hr

def hugeMachine : Machine PmmPool where
  pool := smallPool
  mem := fun f i =>
    if i ≠ 0 then 0#64
    else if f = 1 then 0x2007#64
    else if f = 2 then 0x3007#64
    else if f = 3 then 0x200087#64
    else 0#64

/-- In a 2 MiB page the address of the second 4 KiB comes out as that of the first, and unmapping
one 4 KiB page unmaps the others. -/
theorem mmu_huge_page_differs : hwTranslate hugeMachine.mem 1 0x1234 = some 0x201234 ∧
      mmuResolve 1 0x1234 hugeMachine = 0x200234 ∧
      hwTranslate hugeMachine.mem 1 0x5678 = some 0x205678 ∧
      hwTranslate (mmuUnmap 1 0x1234 hugeMachine).2.mem 1 0x5678 = none := by
  decide +kernel

end Obelisk
