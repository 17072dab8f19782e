import Obelisk.Lib.FreeList
import Obelisk.Pmm.Pool
import Obelisk.Slab.Model

/-!
# Pages for slabs

What the kernel heap needs to know about the page allocator: which frames an allocation takes and a
release gives back, and that the marking of pages as slab pages changes no frame.
-/

namespace Obelisk

open KLib Finset

namespace Pmm

variable {s t : Pmm} {f n : ℕ}

/-- The same frames are free. -/
structure SameFrames (s t : Pmm) : Prop where
  zones : t.zones = s.zones
  bitmap : t.bitmap = s.bitmap
  freePages : t.freePages = s.freePages

lemma SameFrames.refl (s : Pmm) : SameFrames s s := ⟨rfl, rfl, rfl⟩

lemma SameFrames.trans {u : Pmm} (h : SameFrames s t) (h' : SameFrames t u) : SameFrames s u :=
  ⟨h'.zones.trans h.zones, h'.bitmap.trans h.bitmap, h'.freePages.trans h.freePages⟩

lemma SameFrames.freeFrames (h : SameFrames s t) (z : ZoneType) :
    t.freeFrames z = s.freeFrames z := by
  rw [Pmm.freeFrames, h.zones, h.bitmap, Pmm.freeFrames]

lemma SameFrames.frameFree (h : SameFrames s t) (j : ℕ) : t.FrameFree j ↔ s.FrameFree j := by
  rw [FrameFree, FrameFree]
  exact exists_congr fun z => by rw [h.freeFrames]

lemma SameFrames.inv (h : SameFrames s t) (hs : s.Inv) : t.Inv := by
  refine ⟨?_, fun z => ?_, ?_⟩
  · exact SameLayout.inv (fun z => by rw [h.zones]; exact ⟨rfl, rfl⟩) hs.toLayout
  · rw [h.zones, h.freeFrames]
    exact hs.zone_free z
  rw [h.freePages, h.zones]
  exact hs.total_free

lemma sameFrames_updatePage (s : Pmm) (pfn : ℕ) (g : Page → Page) :
    SameFrames s (s.updatePage pfn g) :=
  ⟨updatePage_zones s pfn g, updatePage_bitmap s pfn g, updatePage_freePages s pfn g⟩

lemma sameFrames_forRange {g : ℕ → Pmm → Pmm} (hg : ∀ i s, SameFrames s (g i s)) (i n : ℕ) (s : Pmm) :
    SameFrames s (forRange g i n s) :=
  forRange_inv (fun _ t => SameFrames s t) (.refl s) fun k t _ _ ht => ht.trans (hg k t)

lemma sameFrames_markSlabPages (phys pages : ℕ) (s : Pmm) :
    SameFrames s (markSlabPages phys pages s) :=
  sameFrames_forRange (fun _ _ => (sameFrames_updatePage ..).trans (sameFrames_updatePage ..)) _ _ _

lemma sameFrames_unmarkSlabPages (phys pages : ℕ) (s : Pmm) :
    SameFrames s (unmarkSlabPages phys pages s) :=
  sameFrames_forRange (fun _ _ => sameFrames_updatePage ..) _ _ _

lemma SameFrames.sameLayout (h : SameFrames s t) : SameLayout s t :=
  fun z => by rw [h.zones]; exact ⟨rfl, rfl⟩

lemma SameLayout.refl (s : Pmm) : SameLayout s s := fun _ => ⟨rfl, rfl⟩

lemma SameLayout.trans {u : Pmm} (h : SameLayout s t) (h' : SameLayout t u) : SameLayout s u :=
  fun z => ⟨(h' z).1.trans (h z).1, (h' z).2.trans (h z).2⟩

lemma pmmAllocPages_takes (hs : s.Inv) (n : ℕ) : (pmmAllocPages n s).2.Inv ∧
    SameLayout s (pmmAllocPages n s).2 ∧ ∃ A : Finset ℕ, (∀ j ∈ A, s.FrameFree j) ∧
      (∀ j, (pmmAllocPages n s).2.FrameFree j ↔ s.FrameFree j ∧ j ∉ A) ∧
      (((pmmAllocPages n s).1 = 0 ∧ (A = ∅ ∨ 0 ∈ A)) ∨ ∃ f, (pmmAllocPages n s).1 = f * 4096 ∧
        f ≠ 0 ∧ 0 < n ∧ f + n ≤ 2 ^ 20 ∧ A = Ico f (f + n)) := by
  refine ⟨(exec_inv hs (.allocPages n)).1, ?_⟩
  rcases pmmAllocPages_cases hs n with he | ⟨z, f, hn, hp, ht⟩
  · rw [he]
    exact ⟨.refl s, ∅, by simp, fun j => by simp, .inl ⟨rfl, .inl rfl⟩⟩
  have hfree : ∀ j, (pmmAllocPages n s).2.FrameFree j ↔ s.FrameFree j ∧ j ∉ Ico f (f + n) := by
    intro j
    constructor
    · rintro ⟨w, hw⟩
      rw [ht.freeFrames_eq, mem_sdiff] at hw
      exact ⟨⟨w, hw.1⟩, hw.2⟩
    rintro ⟨⟨w, hw⟩, hj⟩
    exact ⟨w, by rw [ht.freeFrames_eq, mem_sdiff]; exact ⟨hw, hj⟩⟩
  have hmem : ∀ j ∈ Ico f (f + n), s.FrameFree j := fun j hj => ⟨z, ht.sub hj⟩
  refine ⟨ht.layout, Ico f (f + n), hmem, hfree, ?_⟩
  have hfirst := hmem f (mem_Ico.mpr ⟨le_rfl, by omega⟩)
  rw [pfnToPhys_of_free hs hfirst] at hp
  by_cases h0 : f = 0
  · exact .inl ⟨by omega, .inr (mem_Ico.mpr ⟨by omega, by omega⟩)⟩
  have hlast := (mem_freeFrames.mp (ht.sub (mem_Ico.mpr
    (⟨by omega, by omega⟩ : f ≤ f + n - 1 ∧ f + n - 1 < f + n)))).1.2
  have hend := hs.end_le z
  exact .inr ⟨f, hp, h0, hn, by omega, rfl⟩

lemma Gives.frameFree_iff {z : ZoneType} (hg : Gives s t z f) (hs : s.Inv) (j : ℕ) :
    t.FrameFree j ↔ s.FrameFree j ∨ j = f := by
  refine ⟨hg.frameFree hs.toLayout, ?_⟩
  rintro (⟨w, hw⟩ | rfl)
  · obtain ⟨hz, hb⟩ := mem_freeFrames.mp hw
    refine ⟨w, mem_freeFrames.mpr ⟨by rwa [(hg.layout w).1, (hg.layout w).2], ?_⟩⟩
    rw [hg.bits, hb, Bool.and_false]
  refine ⟨z, mem_freeFrames.mpr ⟨?_, ?_⟩⟩
  · rw [(hg.layout z).1, (hg.layout z).2]
    exact ⟨hg.lower, hg.upper⟩
  · rw [hg.bits, decide_eq_true rfl, Bool.not_true, Bool.false_and]

lemma pmmFreePage_frameFree (hs : s.Inv) (phys j : ℕ) : SameLayout s (pmmFreePage phys s) ∧
    ((pmmFreePage phys s).FrameFree j ↔
      s.FrameFree j ∨ (j = physToPfn phys ∧ s.Managed (physToPfn phys))) := by
  rcases pmmFreePage_cases hs phys with he | ⟨z, hg⟩
  · rw [he]
    refine ⟨.refl s, ⟨.inl, ?_⟩⟩
    rintro (hj | ⟨rfl, z, hz⟩)
    · exact hj
    by_contra hf
    have hm : s.Managed (physToPfn phys) := ⟨z, hz⟩
    have hpfn : physToPfn phys = phys / 4096 := Nat.shiftRight_eq_div_pow phys 12
    rw [hpfn] at hm hf
    have hcount := pmmFreePage_count hs hm hf
    rw [he] at hcount
    omega
  have hm : s.Managed (physToPfn phys) := ⟨z, hg.lower, hg.upper⟩
  refine ⟨hg.layout, (hg.frameFree_iff hs j).trans (or_congr_right ?_)⟩
  exact (and_iff_left hm).symm

lemma pmmFreePages_gives (hs : s.Inv) (hf : f + n ≤ 2 ^ 20) : (pmmFreePages (f * 4096) n s).Inv ∧
    SameLayout s (pmmFreePages (f * 4096) n s) ∧
    ∀ j, (pmmFreePages (f * 4096) n s).FrameFree j ↔
      s.FrameFree j ∨ (f ≤ j ∧ j < f + n ∧ s.Managed j) := by
  have hinv := forRange_inv (i := 0) (n := n) (s := s)
    (f := fun i => pmmFreePage (u64 (f * 4096 + i * pageSize)))
    (fun k (t : Pmm) => t.Inv ∧ SameLayout s t ∧ ∀ j, t.FrameFree j ↔
      s.FrameFree j ∨ (f ≤ j ∧ j < f + k ∧ s.Managed j))
    ⟨hs, .refl s, fun j => ⟨.inl, fun h => h.elim id fun h => absurd h.2.1 (by omega)⟩⟩ ?_
  · rwa [zero_add] at hinv
  rintro k t _ hk ⟨ht, hl, hfree⟩
  have hpfn : physToPfn (u64 (f * 4096 + k * pageSize)) = f + k := by
    rw [pageSize, u64_of_lt (by omega), physToPfn, Nat.shiftRight_eq_div_pow]
    omega
  obtain ⟨hl', -⟩ := pmmFreePage_frameFree ht (u64 (f * 4096 + k * pageSize)) 0
  refine ⟨(exec_inv ht (.freePage _)).1, hl.trans hl', fun j => ?_⟩
  rw [(pmmFreePage_frameFree ht _ j).2, hpfn, hfree]
  rw [hl.managed_iff, or_assoc]
  refine or_congr_right ⟨?_, ?_⟩
  · rintro (⟨h1, h2, h3⟩ | ⟨rfl, h3⟩)
    · exact ⟨h1, by omega, h3⟩
    · exact ⟨by omega, by omega, h3⟩
  rintro ⟨h1, h2, h3⟩
  by_cases he : j = f + k
  · exact .inr ⟨he, he ▸ h3⟩
  · exact .inl ⟨h1, by omega, h3⟩

end Pmm

def frameAddr (f : ℕ) : ℕ := kernelPhysMapBase + f * 4096

lemma physToVirt_frame {f : ℕ} (h : f ≤ 2 ^ 20) : physToVirt (f * 4096) = frameAddr f := by
  rw [physToVirt, frameAddr, kernelPhysMapBase, u64_of_lt (by omega)]
  omega

lemma virtToPhys_frame {f : ℕ} (h : f ≤ 2 ^ 20) : virtToPhys (frameAddr f) = f * 4096 := by
  rw [virtToPhys, frameAddr, kernelPhysMapBase, u64Sub_of_le (by omega) (by omega)]
  omega

end Obelisk
