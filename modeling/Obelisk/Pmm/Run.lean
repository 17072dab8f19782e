import Obelisk.Pmm.Invariant

/-!
# Runs of the page allocator

- `pmm_run_accounting`: the counters are right and a frame has one user.
-/

namespace Obelisk

open KLib Finset

variable {j phys : ℕ} {A : Finset ℕ} {t : Pmm}
variable {pfn : ℕ} {z : ZoneType} {f : ℕ → Pmm → Pmm}

namespace Pmm

section Fields

variable (s : Pmm) (z w : ZoneType) (pfn : ℕ) (f : Page → Page) (g : PmmZone → PmmZone)

@[simp] lemma updatePage_zones : (s.updatePage pfn f).zones = s.zones := by
  unfold updatePage; split
  · rfl
  · split_ifs <;> rfl

@[simp] lemma updatePage_bitmap : (s.updatePage pfn f).bitmap = s.bitmap := by
  unfold updatePage; split
  · rfl
  · split_ifs <;> rfl

@[simp] lemma updatePage_freePages : (s.updatePage pfn f).freePages = s.freePages := by
  unfold updatePage; split
  · rfl
  · split_ifs <;> rfl

@[simp] lemma setZone_bitmap : (s.setZone z g).bitmap = s.bitmap := rfl

@[simp] lemma setZone_freePages : (s.setZone z g).freePages = s.freePages := rfl

lemma setZone_zones : (s.setZone z g).zones w = if w = z then g (s.zones w) else s.zones w := by
  change Function.update s.zones z (g (s.zones z)) w = _
  rw [Function.update_apply]
  split_ifs with h
  · rw [h]
  · rfl

end Fields

variable {s : Pmm}

lemma gives_of_used (hs : s.Inv) (hz : s.pfnToZone pfn = some z)
    (hb : bitmapTest s.bitmap pfn = true) (usable : ℕ) :
    let t := { s with bitmap := bitmapClear s.bitmap pfn }.setZone z fun zone =>
      { zone with freePages := u64 (zone.freePages + 1) }
    Gives s ({ t with freePages := u64 (t.freePages + 1), usablePages := usable }.updatePage pfn
      (Page.release z)) z pfn := by
  have hr := hs.pfnToZone_eq_some.mp hz
  have hzf := hs.zone_free_le z
  have hf := hs.free_le
  refine ⟨hr.1, hr.2, hb, fun j => by simp, fun w => ?_, fun w => ?_, ?_⟩
  · simp only [updatePage_zones, setZone_zones]; split_ifs <;> exact ⟨rfl, rfl⟩
  · simp only [updatePage_zones, setZone_zones]
    split_ifs with hw
    · subst hw; exact u64_of_lt (by omega)
    · rfl
  · simp only [updatePage_freePages, setZone_freePages]; exact u64_of_lt (by omega)

lemma markFrameFree_cases (hs : s.Inv) (pfn : ℕ) :
    markFrameFree pfn s = s ∨ ∃ z, Gives s (markFrameFree pfn s) z pfn := by
  unfold markFrameFree
  split
  · exact .inl rfl
  split_ifs with hb
  · exact .inr ⟨_, gives_of_used hs ‹_› hb _⟩
  · exact .inl rfl

lemma pmmFreePage_cases (hs : s.Inv) (phys : ℕ) :
    pmmFreePage phys s = s ∨ ∃ z, Gives s (pmmFreePage phys s) z (physToPfn phys) := by
  unfold pmmFreePage
  dsimp only
  split
  · exact .inl rfl
  split_ifs with hb
  · exact .inl rfl
  · exact .inr ⟨_, gives_of_used hs ‹_› (by simpa using hb) _⟩

lemma pmmFreePage_eq_self (hs : s.Inv)
    (h : bitmapTest s.bitmap (physToPfn phys) = false ∨ s.pfnToZone (physToPfn phys) = none) :
    pmmFreePage phys s = s := by
  rcases pmmFreePage_cases hs phys with he | ⟨z, hg⟩
  · exact he
  rcases h with h | h
  · rw [hg.used] at h; cases h
  · rw [(hs.pfnToZone_eq_some).mpr ⟨hg.lower, hg.upper⟩] at h; cases h

lemma Inv.card_le (hs : s.Inv) (hA : A ⊆ s.freeFrames z) :
    A.card ≤ (s.zones z).freePages ∧ (s.zones z).freePages ≤ s.freePages := by
  refine ⟨by rw [hs.zone_free]; exact card_le_card hA, ?_⟩
  rw [hs.total_free]
  cases z <;> omega

lemma markFrameUsed_cases (hs : s.Inv) (pfn : ℕ) :
    markFrameUsed pfn s = s ∨ ∃ z, Takes s (markFrameUsed pfn s) z {pfn} := by
  unfold markFrameUsed
  split
  · exact .inl rfl
  rename_i z hz
  have hr := hs.pfnToZone_eq_some.mp hz
  have hzf := hs.zone_free_le z
  have hf := hs.free_le
  split_ifs with hb
  · have hsub : {pfn} ⊆ s.freeFrames z := by
      rw [singleton_subset_iff, mem_freeFrames]
      exact ⟨hr, by simpa using hb⟩
    have hc := hs.card_le hsub
    rw [card_singleton] at hc
    refine .inr ⟨z, hsub, fun j => by simp, fun w => ?_, fun w => ?_, ?_⟩
    · simp only [updatePage_zones, setZone_zones]; split_ifs <;> exact ⟨rfl, rfl⟩
    · simp only [updatePage_zones, setZone_zones]
      split_ifs with hw h0
      · subst hw; exact u64Dec_of_pos h0 (by omega)
      · subst hw; omega
      · rfl
    have hd : u64Dec s.freePages = s.freePages - 1 := u64Dec_of_pos (by omega) (by omega)
    rw [updatePage_freePages]
    exact (if_pos (show s.freePages > 0 by omega)).trans hd
  · exact .inl rfl

lemma pmmAllocPageZone_cases (hs : s.Inv) (z : ZoneType) :
    pmmAllocPageZone z s = (0, s) ∨ ∃ pfn, (pmmAllocPageZone z s).1 = pfnToPhys pfn ∧
      Takes s (pmmAllocPageZone z s).2 z {pfn} := by
  unfold pmmAllocPageZone
  split_ifs with h0
  · exact .inl rfl
  split
  · exact .inl rfl
  rename_i pfn hfind
  have hfree := bitmapFindFree_some hfind
  have hzf := hs.zone_free_le z
  have hf := hs.free_le
  have hsub : {pfn} ⊆ s.freeFrames z := by
    rw [singleton_subset_iff, mem_freeFrames]
    exact ⟨⟨hfree.1, hfree.2.1⟩, hfree.2.2⟩
  have hc := hs.card_le hsub
  rw [card_singleton] at hc
  refine .inr ⟨pfn, rfl, hsub, fun j => by simp, fun w => ?_, fun w => ?_, ?_⟩
  · simp only [updatePage_zones, setZone_zones]; split_ifs <;> exact ⟨rfl, rfl⟩
  · simp only [updatePage_zones, setZone_zones]
    split_ifs with hw
    · subst hw; exact u64Dec_of_pos (by omega) (by omega)
    · rfl
  simp only [updatePage_freePages, setZone_freePages]
  exact u64Dec_of_pos (by omega) (by omega)

lemma forRange_claimFrame (z : ZoneType) (p n : ℕ) (s : Pmm) : (forRange (claimFrame z) p n s).zones = s.zones ∧
      (forRange (claimFrame z) p n s).freePages = s.freePages ∧
      ∀ j, bitmapTest (forRange (claimFrame z) p n s).bitmap j =
        (decide (j ∈ Ico p (p + n)) || bitmapTest s.bitmap j) := by
  refine forRange_inv (fun k (t : Pmm) => t.zones = s.zones ∧ t.freePages = s.freePages ∧
    ∀ j, bitmapTest t.bitmap j = (decide (j ∈ Ico p k) || bitmapTest s.bitmap j)) ?_ ?_
  · exact ⟨rfl, rfl, fun j => by simp⟩
  rintro k t h1 - ⟨hz, hf, hb⟩
  refine ⟨by simp [claimFrame, hz], by simp [claimFrame, hf], fun j => ?_⟩
  simp only [claimFrame, updatePage_bitmap, bitmapTest_set, hb, ← Bool.or_assoc, ← Bool.decide_or, mem_Ico]
  congr 2
  exact propext (by omega)

lemma pmmAllocPagesZone_cases (hs : s.Inv) (count : ℕ) (z : ZoneType) :
    pmmAllocPagesZone count z s = (0, s) ∨ ∃ pfn, 0 < count ∧ (pmmAllocPagesZone count z s).1 = pfnToPhys pfn ∧
      Takes s (pmmAllocPagesZone count z s).2 z (Ico pfn (pfn + count)) := by
  unfold pmmAllocPagesZone
  split_ifs with h0
  · exact .inl rfl
  split
  · exact .inl rfl
  rename_i pfn hfind
  have hend := hs.end_le z
  have hfree := bitmapFindFreeRegion_some hfind (by omega)
  have hzf := hs.zone_free_le z
  have hf := hs.free_le
  have hsub : Ico pfn (pfn + count) ⊆ s.freeFrames z := by
    intro j hj
    rw [mem_Ico] at hj
    exact mem_freeFrames.mpr ⟨⟨by omega, by omega⟩, hfree.2.2.2 j hj.1 hj.2⟩
  have hc := hs.card_le hsub
  rw [Nat.card_Ico, Nat.add_sub_cancel_left] at hc
  obtain ⟨hz, hfp, hb⟩ := forRange_claimFrame z pfn count s
  refine .inr ⟨pfn, hfree.2.2.1, rfl, hsub, fun j => ?_, fun w => ?_, fun w => ?_, ?_⟩
  · simp only [setZone_bitmap, hb]
  · simp only [setZone_zones, hz]; split_ifs <;> exact ⟨rfl, rfl⟩
  · simp only [setZone_zones, hz, Nat.card_Ico, Nat.add_sub_cancel_left]
    split_ifs with hw
    · subst hw; exact u64Sub_of_le hc.1 (by omega)
    · rfl
  simp only [setZone_freePages, hfp, Nat.card_Ico, Nat.add_sub_cancel_left]
  exact u64Sub_of_le (by omega) (by omega)

/-- Trying the zones in turn inherits the case analysis of one zone. The Normal and High zones do
not contain frame `0`, so an attempt there that returns `0` has no effect. -/
theorem tryZones_cases {f : ZoneType → Pmm → ℕ × Pmm} {n : ℕ} (hs : s.Inv)
    (hf : ∀ z, f z s = (0, s) ∨ ∃ pfn, 0 < n ∧ (f z s).1 = pfnToPhys pfn ∧
      Takes s (f z s).2 z (Ico pfn (pfn + n))) :
    tryZones f s = (0, s) ∨ ∃ z pfn, 0 < n ∧ (tryZones f s).1 = pfnToPhys pfn ∧
      Takes s (tryZones f s).2 z (Ico pfn (pfn + n)) := by
  have hpos : ∀ z pfn, z ≠ .dma → 0 < n → Takes s (f z s).2 z (Ico pfn (pfn + n)) →
      pfnToPhys pfn ≠ 0 := by
    intro z pfn hz hn ht
    have hm := mem_freeFrames.mp (ht.sub (mem_Ico.mpr ⟨le_rfl, by omega⟩))
    have h1 := hs.normal_start; have h2 := hs.high_start; have h3 := hs.end_le z
    have hlow : 0x1000 ≤ pfn := by cases z <;> first | exact absurd rfl hz | omega
    rw [pfnToPhys, Nat.shiftLeft_eq, u64_of_lt (by omega)]
    omega
  unfold tryZones
  rcases hf .normal with h1 | ⟨pfn, hn, hp, ht⟩
  · rw [h1]
    simp only [ne_eq, not_true_eq_false, if_false]
    rcases hf .high with h2 | ⟨pfn, hn, hp, ht⟩
    · rw [h2]
      simp only [not_true_eq_false, if_false]
      exact (hf .dma).imp_right fun h => ⟨.dma, h⟩
    have h0 := hpos .high pfn (by decide) hn ht
    rw [← hp] at h0
    simp only [h0, not_false_eq_true, if_true]
    exact .inr ⟨.high, pfn, hn, hp, ht⟩
  have h0 := hpos .normal pfn (by decide) hn ht
  rw [← hp] at h0
  simp only [ne_eq, h0, not_false_eq_true, if_true]
  exact .inr ⟨.normal, pfn, hn, hp, ht⟩

lemma pmmAllocPages_cases (hs : s.Inv) (count : ℕ) : pmmAllocPages count s = (0, s) ∨ ∃ z pfn, 0 < count ∧
      (pmmAllocPages count s).1 = pfnToPhys pfn ∧
      Takes s (pmmAllocPages count s).2 z (Ico pfn (pfn + count)) :=
  tryZones_cases hs (pmmAllocPagesZone_cases hs count)

lemma pmmAllocPage_cases (hs : s.Inv) : pmmAllocPage s = (0, s) ∨ ∃ z pfn, (pmmAllocPage s).1 = pfnToPhys pfn ∧
      Takes s (pmmAllocPage s).2 z {pfn} := by
  have h := tryZones_cases (n := 1) (f := pmmAllocPageZone) hs fun z =>
    (pmmAllocPageZone_cases hs z).imp_right fun ⟨pfn, h1, h2⟩ =>
      ⟨pfn, by norm_num, h1, by rwa [Nat.Ico_succ_singleton]⟩
  refine h.imp_right fun ⟨z, pfn, _, h1, h2⟩ => ⟨z, pfn, h1, ?_⟩
  rwa [Nat.Ico_succ_singleton] at h2

/-! ## Operations and runs -/

lemma Takes.used_mono (h : Takes s t z A)
    (hj : bitmapTest s.bitmap j = true) : bitmapTest t.bitmap j = true := by
  rw [h.bits, hj, Bool.or_true]

lemma Gives.used_of_ne (h : Gives s t z pfn)
    (hj : bitmapTest s.bitmap j = true) (hne : j ≠ pfn) : bitmapTest t.bitmap j = true := by
  rw [h.bits, hj]
  simp [hne]

lemma forRange_gives (hs : s.Inv) (pfnOf : ℕ → ℕ)
    (hf : ∀ i t, t.Inv → f i t = t ∨ ∃ z, Gives t (f i t) z (pfnOf i)) (i n : ℕ) :
    (forRange f i n s).Inv ∧ ∀ j, bitmapTest s.bitmap j = true →
      (∀ k, i ≤ k → k < i + n → j ≠ pfnOf k) → bitmapTest (forRange f i n s).bitmap j = true := by
  have key := forRange_inv (f := f) (i := i) (n := n) (s := s)
    (fun k t => t.Inv ∧ ∀ j, bitmapTest s.bitmap j = true →
      (∀ k', i ≤ k' → k' < k → j ≠ pfnOf k') → bitmapTest t.bitmap j = true)
    ⟨hs, fun j hj _ => hj⟩ fun k t h1 _ ⟨hi, hu⟩ => by
      rcases hf k t hi with he | ⟨z, hg⟩
      · rw [he]
        exact ⟨hi, fun j hj hne => hu j hj fun k' h3 h4 => hne k' h3 (by omega)⟩
      exact ⟨hi.gives hg, fun j hj hne => hg.used_of_ne
        (hu j hj fun k' h3 h4 => hne k' h3 (by omega)) (hne k h1 (by omega))⟩
  exact key

lemma forRange_takes (hs : s.Inv) (hf : ∀ i t, t.Inv → f i t = t ∨ ∃ z, Takes t (f i t) z {i}) (i n : ℕ) :
    (forRange f i n s).Inv ∧ ∀ j, bitmapTest s.bitmap j = true →
      bitmapTest (forRange f i n s).bitmap j = true := by
  refine forRange_inv (fun _ (t : Pmm) => t.Inv ∧ ∀ j, bitmapTest s.bitmap j = true →
    bitmapTest t.bitmap j = true) ⟨hs, fun j hj => hj⟩ ?_
  rintro k t - - ⟨hi, hu⟩
  rcases hf k t hi with he | ⟨z, hg⟩
  · rw [he]; exact ⟨hi, hu⟩
  · exact ⟨hi.takes hg, fun j hj => hg.used_mono (hu j hj)⟩

end Pmm

/-- A call of the allocator. -/
inductive PmmOp
  | markRegionFree (base size : ℕ)
  | markRegionUsed (base size : ℕ)
  | allocPageZone (z : ZoneType)
  | allocPage
  | allocPagesZone (count : ℕ) (z : ZoneType)
  | allocPages (count : ℕ)
  | freePage (phys : ℕ)
  | freePages (phys count : ℕ)
  deriving DecidableEq, Repr

namespace PmmOp

def exec : PmmOp → Pmm → ℕ × Pmm
  | markRegionFree base size, s => (0, pmmMarkRegionFree base size s)
  | markRegionUsed base size, s => (0, pmmMarkRegionUsed base size s)
  | allocPageZone z, s => pmmAllocPageZone z s
  | allocPage, s => pmmAllocPage s
  | allocPagesZone count z, s => pmmAllocPagesZone count z s
  | allocPages count, s => pmmAllocPages count s
  | freePage phys, s => (0, pmmFreePage phys s)
  | freePages phys count, s => (0, pmmFreePages phys count s)

def pages : PmmOp → ℕ
  | allocPageZone _ => 1
  | allocPage => 1
  | allocPagesZone count _ => count
  | allocPages count => count
  | _ => 0

/-- The operation frees the frame: it is passed to `pmm_free_page(s)` or lies in a region that is
marked free. -/
def Releases : PmmOp → ℕ → Prop
  | markRegionFree base size, pfn => physToPfn (alignUp base pageSize) ≤ pfn ∧
      pfn < physToPfn (alignDown (u64 (base + size)) pageSize)
  | freePage phys, pfn => pfn = physToPfn phys
  | freePages phys count, pfn => ∃ i < count, pfn = physToPfn (u64 (phys + i * pageSize))
  | _, _ => False

end PmmOp

def pmmRun (s : Pmm) (ops : List PmmOp) : Pmm := ops.foldl (fun s op => (op.exec s).2) s

namespace Pmm

lemma exec_inv (hs : s.Inv) (op : PmmOp) : (op.exec s).2.Inv ∧ ∀ j, bitmapTest s.bitmap j = true → ¬ op.Releases j →
      bitmapTest (op.exec s).2.bitmap j = true := by
  cases op with
  | markRegionFree base size =>
    simp only [PmmOp.exec, pmmMarkRegionFree]
    split_ifs with he
    · exact ⟨hs, fun j hj _ => hj⟩
    have h := forRange_gives hs id (fun i t ht => markFrameFree_cases ht i) (physToPfn (alignUp base pageSize))
      (physToPfn (alignDown (u64 (base + size)) pageSize) - physToPfn (alignUp base pageSize))
    refine ⟨h.1, fun j hj hr => h.2 j hj fun k h1 h2 e => hr ?_⟩
    subst e
    exact ⟨h1, by simp only [id] at *; omega⟩
  | markRegionUsed base size =>
    have h := forRange_takes hs (fun i t ht => markFrameUsed_cases ht i) (physToPfn (alignDown base pageSize))
      (physToPfn (alignUp (u64 (base + size)) pageSize) - physToPfn (alignDown base pageSize))
    exact ⟨h.1, fun j hj _ => h.2 j hj⟩
  | allocPageZone z =>
    rcases pmmAllocPageZone_cases hs z with he | ⟨pfn, -, ht⟩
    · simp only [PmmOp.exec, he]; exact ⟨hs, fun j hj _ => hj⟩
    · exact ⟨hs.takes ht, fun j hj _ => ht.used_mono hj⟩
  | allocPage =>
    rcases pmmAllocPage_cases hs with he | ⟨z, pfn, -, ht⟩
    · simp only [PmmOp.exec, he]; exact ⟨hs, fun j hj _ => hj⟩
    · exact ⟨hs.takes ht, fun j hj _ => ht.used_mono hj⟩
  | allocPagesZone count z =>
    rcases pmmAllocPagesZone_cases hs count z with he | ⟨pfn, -, -, ht⟩
    · simp only [PmmOp.exec, he]; exact ⟨hs, fun j hj _ => hj⟩
    · exact ⟨hs.takes ht, fun j hj _ => ht.used_mono hj⟩
  | allocPages count =>
    rcases pmmAllocPages_cases hs count with he | ⟨z, pfn, -, -, ht⟩
    · simp only [PmmOp.exec, he]; exact ⟨hs, fun j hj _ => hj⟩
    · exact ⟨hs.takes ht, fun j hj _ => ht.used_mono hj⟩
  | freePage phys =>
    rcases pmmFreePage_cases hs phys with he | ⟨z, hg⟩
    · simp only [PmmOp.exec, he]; exact ⟨hs, fun j hj _ => hj⟩
    · exact ⟨hs.gives hg, fun j hj hr => hg.used_of_ne hj hr⟩
  | freePages phys count =>
    have h := forRange_gives hs (fun i => physToPfn (u64 (phys + i * pageSize)))
      (f := fun i => pmmFreePage (u64 (phys + i * pageSize)))
      (fun i t ht => pmmFreePage_cases ht _) 0 count
    exact ⟨h.1, fun j hj hr => h.2 j hj fun k _ h2 e => hr ⟨k, by omega, e⟩⟩

lemma pmmRun_inv (hs : s.Inv) (ops : List PmmOp) : (pmmRun s ops).Inv ∧
    ∀ j, bitmapTest s.bitmap j = true → (∀ op ∈ ops, ¬ op.Releases j) →
      bitmapTest (pmmRun s ops).bitmap j = true := by
  induction ops generalizing s with
  | nil => exact ⟨hs, fun j hj _ => hj⟩
  | cons op ops ih =>
    have h1 := exec_inv hs op
    have h2 := ih h1.1
    exact ⟨h2.1, fun j hj hr => h2.2 j (h1.2 j hj (hr op List.mem_cons_self))
      fun op' h' => hr op' (List.mem_cons_of_mem _ h')⟩

/-- **An allocation that returns a non-zero address** hands out that many consecutive frames of
one zone, all free before and all used afterwards. -/
theorem exec_alloc (hs : s.Inv) (op : PmmOp) (h0 : (op.exec s).1 ≠ 0) :
    ∃ z pfn, (op.exec s).1 = pfn * pageSize ∧ (s.zones z).startPfn ≤ pfn ∧
      pfn + op.pages ≤ (s.zones z).endPfn ∧ 0 < op.pages ∧
      ∀ j, pfn ≤ j → j < pfn + op.pages →
        bitmapTest s.bitmap j = false ∧ bitmapTest (op.exec s).2.bitmap j = true := by
  have key : ∀ z pfn n, 0 < n → (op.exec s).1 = pfnToPhys pfn →
      Takes s (op.exec s).2 z (Ico pfn (pfn + n)) → (op.exec s).1 = pfn * pageSize ∧
        (s.zones z).startPfn ≤ pfn ∧ pfn + n ≤ (s.zones z).endPfn ∧ 0 < n ∧
        ∀ j, pfn ≤ j → j < pfn + n →
          bitmapTest s.bitmap j = false ∧ bitmapTest (op.exec s).2.bitmap j = true := by
    intro z pfn n hn hp ht
    have hfirst := mem_freeFrames.mp (ht.sub (mem_Ico.mpr ⟨le_rfl, by omega⟩))
    have hlast := mem_freeFrames.mp (ht.sub (mem_Ico.mpr (show pfn ≤ pfn + n - 1 ∧ pfn + n - 1 < pfn + n by omega)))
    have hend := hs.end_le z
    refine ⟨?_, hfirst.1.1, by omega, hn, fun j h1 h2 => ?_⟩
    · rw [hp, pfnToPhys, Nat.shiftLeft_eq, u64_of_lt (by omega)]; rfl
    have hj : j ∈ Ico pfn (pfn + n) := mem_Ico.mpr ⟨h1, h2⟩
    exact ⟨(mem_freeFrames.mp (ht.sub hj)).2, by rw [ht.bits]; simp [hj]⟩
  cases op with
  | markRegionFree | markRegionUsed | freePage | freePages => exact absurd rfl h0
  | allocPageZone z =>
    rcases pmmAllocPageZone_cases hs z with he | ⟨pfn, hp, ht⟩
    · exact absurd (congrArg Prod.fst he) h0
    · exact ⟨z, pfn, key z pfn 1 one_pos hp (by rwa [Nat.Ico_succ_singleton])⟩
  | allocPage =>
    rcases pmmAllocPage_cases hs with he | ⟨z, pfn, hp, ht⟩
    · exact absurd (congrArg Prod.fst he) h0
    · exact ⟨z, pfn, key z pfn 1 one_pos hp (by rwa [Nat.Ico_succ_singleton])⟩
  | allocPagesZone count z =>
    rcases pmmAllocPagesZone_cases hs count z with he | ⟨pfn, hn, hp, ht⟩
    · exact absurd (congrArg Prod.fst he) h0
    · exact ⟨z, pfn, key z pfn count hn hp ht⟩
  | allocPages count =>
    rcases pmmAllocPages_cases hs count with he | ⟨z, pfn, hn, hp, ht⟩
    · exact absurd (congrArg Prod.fst he) h0
    · exact ⟨z, pfn, key z pfn count hn hp ht⟩

lemma pmmInitBitmap_inv (numPages : ℕ) (pageArray : Option (ℕ → Page)) (count : ℕ) : (pmmInitBitmap numPages
      { pmmStatic with pageArray := pageArray, pageArrayCount := count }).Inv := by
  have hused : ∀ j, bitmapTest (fun _ => BitVec.allOnes 32) j = true := by
    intro j
    rw [bitmapTest_eq, BitVec.getLsbD_allOnes]
    exact decide_eq_true (Nat.mod_lt _ (by norm_num))
  have hnone : ∀ t : Pmm, t.bitmap = (fun _ => BitVec.allOnes 32) → ∀ z, t.freeFrames z = ∅ := by
    intro t ht z
    rw [freeFrames, ht, filter_eq_empty_iff]
    intro j _
    rw [hused]
    simp
  refine ⟨?_, fun z => ?_, rfl⟩
  · have hmax : maxBitmapPages = 0x100000 := rfl
    unfold pmmInitBitmap
    dsimp only
    split_ifs <;> constructor <;> simp [pmmStatic] <;> omega
  rw [hnone _ rfl]
  rfl

lemma pmmFreePages_eq_self (hs : s.Inv) {count : ℕ}
    (h : ∀ i < count, bitmapTest s.bitmap (physToPfn (u64 (phys + i * pageSize))) = false ∨
      s.pfnToZone (physToPfn (u64 (phys + i * pageSize))) = none) :
    pmmFreePages phys count s = s := by
  refine forRange_inv (fun _ t => t = s) rfl ?_
  rintro k t - hk rfl
  exact pmmFreePage_eq_self hs (h k (by omega))

end Pmm

/-- **Accounting and exclusivity of the page allocator.** From any state that `pmm_init_bitmap`
produces, after any sequence of operations: every zone counter is the number of clear bits of its
zone and the global counter is their sum; a further allocation that returns a non-zero address
gets consecutive frames of one zone, free before and used after, and as long as none of them has
been freed, no later allocation gets it again; freeing free or unmanaged frames has no effect. -/
theorem pmm_run_accounting (numPages : ℕ) (pageArray : Option (ℕ → Page)) (count : ℕ) (ops : List PmmOp) :
    let s := pmmRun (pmmInitBitmap numPages
      { pmmStatic with pageArray := pageArray, pageArrayCount := count }) ops
    (∀ z, (s.zones z).freePages = (s.freeFrames z).card) ∧
    s.freePages = (s.zones .dma).freePages + (s.zones .normal).freePages + (s.zones .high).freePages ∧
    (∀ op : PmmOp, (op.exec s).1 ≠ 0 → ∃ z pfn, (op.exec s).1 = pfn * pageSize ∧
      (s.zones z).startPfn ≤ pfn ∧ pfn + op.pages ≤ (s.zones z).endPfn ∧
      (∀ j, pfn ≤ j → j < pfn + op.pages →
        bitmapTest s.bitmap j = false ∧ bitmapTest (op.exec s).2.bitmap j = true) ∧
      ∀ (mid : List PmmOp) (op' : PmmOp) (pfn' : ℕ),
        (op'.exec (pmmRun (op.exec s).2 mid)).1 = pfn' * pageSize → pfn' ≠ 0 →
        ∀ j, pfn ≤ j → j < pfn + op.pages → pfn' ≤ j → j < pfn' + op'.pages → ∃ o ∈ mid, o.Releases j) ∧
    (∀ phys, bitmapTest s.bitmap (physToPfn phys) = false ∨ s.pfnToZone (physToPfn phys) = none →
      pmmFreePage phys s = s) ∧
    ∀ phys n, (∀ i < n, bitmapTest s.bitmap (physToPfn (u64 (phys + i * pageSize))) = false ∨
      s.pfnToZone (physToPfn (u64 (phys + i * pageSize))) = none) → pmmFreePages phys n s = s := by
  intro s
  have hs : s.Inv := (Pmm.pmmRun_inv (Pmm.pmmInitBitmap_inv numPages pageArray count) ops).1
  refine ⟨hs.zone_free, hs.total_free, fun op h0 => ?_, fun _ => Pmm.pmmFreePage_eq_self hs,
    fun _ _ => Pmm.pmmFreePages_eq_self hs⟩
  obtain ⟨z, pfn, hp, hlo, hhi, -, hfree⟩ := Pmm.exec_alloc hs op h0
  refine ⟨z, pfn, hp, hlo, hhi, hfree, fun mid op' pfn' hp' hne j h1 h2 h3 h4 => ?_⟩
  have hmid := Pmm.pmmRun_inv (Pmm.exec_inv hs op).1 mid
  -- the second allocation finds the frame free, so it did not stay used
  have h0' : (op'.exec (pmmRun (op.exec s).2 mid)).1 ≠ 0 := by
    rw [hp']; exact Nat.mul_ne_zero hne (by decide)
  obtain ⟨z', q, hq, -, -, -, hfree'⟩ := Pmm.exec_alloc hmid.1 op' h0'
  obtain rfl : pfn' = q := Nat.eq_of_mul_eq_mul_right (by decide : 0 < pageSize) (hp'.symm.trans hq)
  by_contra hno
  push Not at hno
  have hused := hmid.2 j (hfree j h1 h2).2 hno
  rw [(hfree' j h3 h4).1] at hused
  cases hused

end Obelisk
