import Obelisk.Lib.FramePool
import Obelisk.Pmm.Run

/-!
# The page allocator as a frame allocator

The states that satisfy the accounting invariant form a `FramePool`: a free frame is a clear bit
inside a zone, and the counter of the allocator counts them.
-/

namespace Obelisk

open KLib Finset

abbrev PmmPool := { s : Pmm // s.Inv }

namespace Pmm

variable {s t : Pmm} {z : ZoneType} {A : Finset ℕ} {pfn : ℕ}

lemma frameFree_lt (hs : s.Inv) (h : s.FrameFree pfn) : pfn < 2 ^ 40 := by
  obtain ⟨z, hz⟩ := h
  have := (mem_freeFrames.mp hz).1.2
  have := hs.end_le z
  omega

lemma pfnToPhys_of_free (hs : s.Inv) (h : s.FrameFree pfn) : pfnToPhys pfn = pfn * 4096 := by
  have := frameFree_lt hs h
  rw [pfnToPhys, Nat.shiftLeft_eq, u64_of_lt (by omega)]

lemma Takes.frameFree_mono (h : Takes s t z A) (hf : t.FrameFree pfn) : s.FrameFree pfn := by
  obtain ⟨w, hw⟩ := hf
  rw [h.freeFrames_eq] at hw
  exact ⟨w, (mem_sdiff.mp hw).1⟩

lemma Takes.frameFree_of_mem (h : Takes s t z A) (hA : pfn ∈ A) :
    s.FrameFree pfn ∧ ¬ t.FrameFree pfn := by
  refine ⟨⟨z, h.sub hA⟩, ?_⟩
  rintro ⟨w, hw⟩
  rw [h.freeFrames_eq] at hw
  exact (mem_sdiff.mp hw).2 hA

lemma Gives.frameFree (h : Gives s t z pfn) (hs : s.Layout) {j : ℕ} (hf : t.FrameFree j) :
    s.FrameFree j ∨ j = pfn := by
  obtain ⟨w, hw⟩ := hf
  rw [h.freeFrames_eq hs] at hw
  split_ifs at hw with hz
  · rcases mem_insert.mp hw with rfl | hw
    · exact .inr rfl
    · exact .inl ⟨w, hw⟩
  · exact .inl ⟨w, hw⟩

end Pmm

open Pmm in
/-- The page allocator obeys the laws of a frame allocator. -/
instance : FramePool PmmPool where
  allocPage s := ((pmmAllocPage s.1).1, ⟨(pmmAllocPage s.1).2, (exec_inv s.2 .allocPage).1⟩)
  allocPages n s :=
    ((pmmAllocPages n s.1).1, ⟨(pmmAllocPages n s.1).2, (exec_inv s.2 (.allocPages n)).1⟩)
  freePage phys s := ⟨pmmFreePage phys s.1, (exec_inv s.2 (.freePage phys)).1⟩
  Free s pfn := s.1.FrameFree pfn
  allocPage_mono := by
    rintro ⟨s, hs⟩ f hf
    rcases pmmAllocPage_cases hs with he | ⟨z, pfn, -, ht⟩
    · simpa only [he] using hf
    · exact ht.frameFree_mono hf
  allocPage_fresh := by
    rintro ⟨s, hs⟩ h0
    rcases pmmAllocPage_cases hs with he | ⟨z, pfn, hp, ht⟩
    · exact absurd (congrArg Prod.fst he) h0
    obtain ⟨hfree, htaken⟩ := ht.frameFree_of_mem (mem_singleton_self pfn)
    exact ⟨pfn, hp.trans (pfnToPhys_of_free hs hfree), frameFree_lt hs hfree, hfree, htaken⟩
  allocPages_mono := by
    rintro n ⟨s, hs⟩ f hf
    rcases pmmAllocPages_cases hs n with he | ⟨z, pfn, -, -, ht⟩
    · simpa only [he] using hf
    · exact ht.frameFree_mono hf
  allocPages_fresh := by
    rintro n ⟨s, hs⟩ h0
    rcases pmmAllocPages_cases hs n with he | ⟨z, pfn, hn, hp, ht⟩
    · exact absurd (congrArg Prod.fst he) h0
    have hfirst := ht.frameFree_of_mem (mem_Ico.mpr (⟨le_rfl, by omega⟩ : pfn ≤ pfn ∧ _))
    have hlast := ht.frameFree_of_mem (mem_Ico.mpr
      (⟨by omega, by omega⟩ : pfn ≤ pfn + n - 1 ∧ pfn + n - 1 < pfn + n))
    have := frameFree_lt hs hlast.1
    exact ⟨pfn, hp.trans (pfnToPhys_of_free hs hfirst.1), by omega, hn,
      fun j h1 h2 => ht.frameFree_of_mem (mem_Ico.mpr ⟨h1, h2⟩)⟩
  freePage_mono := by
    rintro phys ⟨s, hs⟩ f hf
    have hpfn : physToPfn phys = phys / 4096 := Nat.shiftRight_eq_div_pow phys 12
    rcases pmmFreePage_cases hs phys with he | ⟨z, hg⟩
    · exact .inl (by simpa only [he] using hf)
    rw [hpfn] at hg
    exact hg.frameFree hs.toLayout hf

/-! ## Counting -/

namespace Pmm

variable {s t : Pmm} {z : ZoneType} {pfn : ℕ}

def Managed (s : Pmm) (pfn : ℕ) : Prop :=
  ∃ z, (s.zones z).startPfn ≤ pfn ∧ pfn < (s.zones z).endPfn

lemma SameLayout.managed (h : SameLayout s t) (hf : s.Managed pfn) : t.Managed pfn := by
  obtain ⟨z, hz⟩ := hf
  exact ⟨z, by rwa [(h z).1, (h z).2]⟩

lemma SameLayout.managed_iff (h : SameLayout s t) : t.Managed pfn ↔ s.Managed pfn := by
  constructor
  · rintro ⟨z, hz⟩
    rw [(h z).1, (h z).2] at hz
    exact ⟨z, hz⟩
  · exact h.managed

lemma frameFree_iff : s.FrameFree pfn ↔ s.Managed pfn ∧ bitmapTest s.bitmap pfn = false := by
  constructor
  · rintro ⟨z, hz⟩
    obtain ⟨hr, hb⟩ := mem_freeFrames.mp hz
    exact ⟨⟨z, hr⟩, hb⟩
  rintro ⟨⟨z, hr⟩, hb⟩
  exact ⟨z, mem_freeFrames.mpr ⟨hr, hb⟩⟩

lemma bitmapFindFreeLoop_none {bitmap : ℕ → BitVec 32} {i n : ℕ}
    (h : bitmapFindFreeLoop bitmap i n = none) {j : ℕ} (h₁ : i ≤ j) (h₂ : j < i + n) :
    bitmapTest bitmap j = true := by
  induction n generalizing i with
  | zero => omega
  | succ n ih =>
    rw [bitmapFindFreeLoop] at h
    split_ifs at h with hb
    rcases Nat.lt_or_eq_of_le h₁ with hlt | rfl
    · exact ih h hlt (by omega)
    · simpa using hb

lemma pfnToPhys_eq_zero (hs : s.Inv) (hf : s.FrameFree pfn) (h : pfnToPhys pfn = 0) : pfn = 0 := by
  rw [pfnToPhys_of_free hs hf] at h
  omega

lemma pmmAllocPageZone_zero (hs : s.Inv) (h0 : ¬ s.FrameFree 0) (h : (pmmAllocPageZone z s).1 = 0) :
    pmmAllocPageZone z s = (0, s) ∧ (s.zones z).freePages = 0 := by
  rcases pmmAllocPageZone_cases hs z with he | ⟨pfn, hp, ht⟩
  · refine ⟨he, ?_⟩
    by_contra hne
    obtain ⟨j, hj⟩ := card_pos.mp (pos_of_ne_zero (hs.zone_free z ▸ hne))
    have hrange := (mem_freeFrames.mp hj).1
    unfold pmmAllocPageZone at h
    rw [if_neg hne] at h
    cases hfind : bitmapFindFree s.bitmap (s.zones z).startPfn (s.zones z).endPfn with
    | none =>
      have := bitmapFindFreeLoop_none hfind hrange.1 (by omega)
      rw [(mem_freeFrames.mp hj).2] at this
      cases this
    | some pfn =>
      rw [hfind] at h
      obtain ⟨h₁, h₂, h3⟩ := bitmapFindFree_some hfind
      have hfree : s.FrameFree pfn := ⟨z, mem_freeFrames.mpr ⟨⟨h₁, h₂⟩, h3⟩⟩
      exact h0 (pfnToPhys_eq_zero hs hfree h ▸ hfree)
  have hfree := (ht.frameFree_of_mem (mem_singleton_self pfn)).1
  exact absurd (pfnToPhys_eq_zero hs hfree (hp ▸ h) ▸ hfree) h0

lemma pmmAllocPage_zero (hs : s.Inv) (h0 : ¬ s.FrameFree 0) (h : (pmmAllocPage s).1 = 0) :
    pmmAllocPage s = (0, s) ∧ s.freePages = 0 := by
  unfold pmmAllocPage tryZones at h ⊢
  dsimp only at h ⊢
  split_ifs at h ⊢ with h₁ h₂
  · exact absurd h h₁
  · exact absurd h h₂
  rw [not_not] at h₁
  obtain ⟨e1, n1⟩ := pmmAllocPageZone_zero hs h0 h₁
  rw [e1] at h h₂ ⊢
  rw [not_not] at h₂
  obtain ⟨e2, n2⟩ := pmmAllocPageZone_zero hs h0 h₂
  rw [e2] at h ⊢
  obtain ⟨e3, n3⟩ := pmmAllocPageZone_zero hs h0 h
  rw [e3]
  exact ⟨rfl, by rw [hs.total_free, n1, n2, n3]⟩

lemma Takes.count_add {A : Finset ℕ} (ht : Takes s t z A) (hs : s.Inv) :
    t.freePages + A.card = s.freePages := by
  have := hs.card_le ht.sub
  have := ht.total
  omega

lemma pmmFreePage_count (hs : s.Inv) {phys : ℕ} (hm : s.Managed (phys / 4096))
    (hf : ¬ s.FrameFree (phys / 4096)) : (pmmFreePage phys s).freePages = s.freePages + 1 := by
  have hpfn : physToPfn phys = phys / 4096 := Nat.shiftRight_eq_div_pow phys 12
  obtain ⟨z, hz⟩ := hm
  have hzone := hs.pfnToZone_eq_some.mpr hz
  have hbit : bitmapTest s.bitmap (phys / 4096) = true := by
    by_contra hb
    exact hf ⟨z, mem_freeFrames.mpr ⟨hz, by simpa using hb⟩⟩
  have hle := hs.free_le
  unfold pmmFreePage
  rw [hpfn]
  dsimp only
  rw [hzone]
  simp only [hbit, Bool.not_true, Bool.false_eq_true, if_false, updatePage_freePages, setZone_freePages]
  exact u64_of_lt (by omega)

def allFree (s : Pmm) : Finset ℕ := s.freeFrames .dma ∪ s.freeFrames .normal ∪ s.freeFrames .high

lemma coe_allFree (s : Pmm) : (s.allFree : Set ℕ) = { pfn | s.FrameFree pfn } := by
  ext pfn
  simp only [allFree, coe_union, Set.mem_union, mem_coe, Set.mem_ofPred_eq, FrameFree]
  constructor
  · rintro ((h | h) | h)
    · exact ⟨_, h⟩
    · exact ⟨_, h⟩
    · exact ⟨_, h⟩
  rintro ⟨z, h⟩
  cases z with
  | dma => exact .inl (.inl h)
  | normal => exact .inl (.inr h)
  | high => exact .inr h

lemma Layout.disjoint_free (hs : s.Layout) {w : ZoneType} (h : z ≠ w) :
    Disjoint (s.freeFrames z) (s.freeFrames w) := by
  rw [disjoint_left]
  intro j hz hw
  obtain ⟨⟨h₁, h₂⟩, -⟩ := mem_freeFrames.mp hz
  obtain ⟨⟨h3, h4⟩, -⟩ := mem_freeFrames.mp hw
  exact h (hs.zone_unique h₁ h₂ h3 h4)

lemma Inv.card_allFree (hs : s.Inv) : s.freePages = s.allFree.card := by
  have h₁ := hs.disjoint_free (z := .dma) (w := .normal) (by decide)
  have h₂ : Disjoint (s.freeFrames .dma ∪ s.freeFrames .normal) (s.freeFrames .high) :=
    disjoint_union_left.mpr ⟨hs.disjoint_free (by decide), hs.disjoint_free (by decide)⟩
  rw [allFree, card_union_of_disjoint h₂, card_union_of_disjoint h₁, hs.total_free,
    hs.zone_free, hs.zone_free, hs.zone_free]

end Pmm

open Pmm in
instance : CountedPool PmmPool where
  count s := s.1.freePages
  Managed s pfn := s.1.Managed pfn
  finite_free s := s.1.coe_allFree ▸ s.1.allFree.finite_toSet
  count_eq := by
    rintro ⟨s, hs⟩
    show s.freePages = { f | s.FrameFree f }.ncard
    rw [← s.coe_allFree, Set.ncard_coe_finset, hs.card_allFree]
  managed_of_free := fun ⟨z, hz⟩ => ⟨z, (mem_freeFrames.mp hz).1⟩
  managed_allocPage := by
    rintro ⟨s, hs⟩ f hf
    rcases pmmAllocPage_cases hs with he | ⟨z, pfn, -, ht⟩
    · show (pmmAllocPage s).2.Managed f
      rw [he]; exact hf
    · exact ht.layout.managed hf
  managed_freePage := by
    rintro phys ⟨s, hs⟩ f hf
    rcases pmmFreePage_cases hs phys with he | ⟨z, hg⟩
    · show (pmmFreePage phys s).Managed f
      rw [he]; exact hf
    · exact hg.layout.managed hf
  allocPage_count := by
    rintro ⟨s, hs⟩ h0
    rcases pmmAllocPage_cases hs with he | ⟨z, pfn, -, ht⟩
    · exact absurd (congrArg Prod.fst he) h0
    · exact ht.count_add hs
  allocPage_empty := by
    rintro ⟨s, hs⟩ h0 h
    obtain ⟨he, hc⟩ := pmmAllocPage_zero hs h0 h
    exact ⟨hc, Subtype.ext (congrArg Prod.snd he)⟩
  allocPages_one_count := by
    rintro ⟨s, hs⟩ h0
    rcases pmmAllocPages_cases hs 1 with he | ⟨z, pfn, -, -, ht⟩
    · exact absurd (congrArg Prod.fst he) h0
    have := ht.count_add hs
    rwa [Nat.card_Ico, Nat.add_sub_cancel_left] at this
  freePage_count := by
    rintro phys ⟨s, hs⟩ hm hf
    exact pmmFreePage_count hs hm hf

end Obelisk
