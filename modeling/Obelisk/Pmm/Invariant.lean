import Mathlib.Order.Interval.Finset.Nat
import Mathlib.Tactic.Linarith
import Obelisk.Pmm.Model

/-!
# The accounting invariant of the page allocator

* **`Pmm.Inv`**: every zone counter is the number of clear bits of its zone and the global counter
  is their sum; `Inv.takes` and `Inv.gives` keep it.
-/

namespace Obelisk

open KLib Finset BitVec

variable {bitmap : ℕ → BitVec 32} {count i n p pfn start stop : ℕ} {z : ZoneType} {t : Pmm} {A : Finset ℕ}
variable {s : Pmm}

lemma bitmapTest_eq (bitmap : ℕ → BitVec 32) (j : ℕ) :
    bitmapTest bitmap j = (bitmap (j / 32)).getLsbD (j % 32) :=
  and_one_shiftLeft_bne _ (Nat.mod_lt _ (by norm_num))

@[simp] lemma bitmapTest_set (bitmap : ℕ → BitVec 32) (i j : ℕ) :
    bitmapTest (bitmapSet bitmap i) j = (decide (j = i) || bitmapTest bitmap j) := by
  have hj : j % 32 < 32 := Nat.mod_lt _ (by norm_num)
  rw [bitmapTest_eq, bitmapTest_eq, bitmapSet, Function.update_apply]
  split_ifs with hw
  · rw [getLsbD_or, getLsbD_one_shiftLeft _ _ hj, hw, Bool.or_comm]
    congr 1
    exact decide_eq_decide.mpr (by omega)
  have : j ≠ i := fun h => hw (by rw [h])
  simp [this]

@[simp] lemma bitmapTest_clear (bitmap : ℕ → BitVec 32) (i j : ℕ) :
    bitmapTest (bitmapClear bitmap i) j = (!decide (j = i) && bitmapTest bitmap j) := by
  have hj : j % 32 < 32 := Nat.mod_lt _ (by norm_num)
  rw [bitmapTest_eq, bitmapTest_eq, bitmapClear, Function.update_apply]
  split_ifs with hw
  · rw [getLsbD_and, getLsbD_not, getLsbD_one_shiftLeft _ _ hj, hw, Bool.and_comm]
    have : decide (j % 32 = i % 32) = decide (j = i) := decide_eq_decide.mpr (by omega)
    simp [hj, this]
  have : j ≠ i := fun h => hw (by rw [h])
  simp [this]

lemma bitmapFindFreeLoop_some (h : bitmapFindFreeLoop bitmap i n = some p) :
    i ≤ p ∧ p < i + n ∧ bitmapTest bitmap p = false := by
  induction n generalizing i with
  | zero => simp [bitmapFindFreeLoop] at h
  | succ n ih =>
    rw [bitmapFindFreeLoop] at h
    split_ifs at h with hb
    · cases h
      exact ⟨le_rfl, by omega, by simpa using hb⟩
    have := ih h
    exact ⟨by omega, by omega, this.2.2⟩

lemma bitmapFindFree_some (h : bitmapFindFree bitmap start stop = some p) :
    start ≤ p ∧ p < stop ∧ bitmapTest bitmap p = false := by
  have := bitmapFindFreeLoop_some h
  exact ⟨this.1, by omega, this.2.2⟩

lemma bitmapFindFreeRegionLoop_some {fs fc a : ℕ}
    (h : bitmapFindFreeRegionLoop bitmap count i n fs fc = some p) (hi : i + n < 2 ^ 64)
    (hfc : fc ≠ 0 → fs + fc = i) (hlo : a ≤ i) (hfs : fc ≠ 0 → a ≤ fs)
    (hfree : ∀ j, fc ≠ 0 → fs ≤ j → j < i → bitmapTest bitmap j = false) :
    a ≤ p ∧ p + count ≤ i + n ∧ 0 < count ∧
      ∀ j, p ≤ j → j < p + count → bitmapTest bitmap j = false := by
  induction n generalizing i fs fc with
  | zero => simp [bitmapFindFreeRegionLoop] at h
  | succ n ih =>
    simp only [bitmapFindFreeRegionLoop] at h
    by_cases hb : bitmapTest bitmap i = true
    · -- a used bit ends the run
      simp only [hb, Bool.not_true, Bool.false_eq_true, if_false] at h
      have := ih h (by omega) (fun h => absurd rfl h) (by omega) (fun h => absurd rfl h) fun _ h => absurd rfl h
      exact ⟨this.1, by omega, this.2.2⟩
    -- the run that ends with `i` starts at `fs'`
    obtain ⟨fs', hfs'⟩ : ∃ x, x = if fc = 0 then i else fs := ⟨_, rfl⟩
    have hend : fs' + fc = i := by
      rw [hfs']; split_ifs with h0
      · omega
      · exact hfc h0
    have hlo' : a ≤ fs' := by
      rw [hfs']; split_ifs with h0
      · exact hlo
      · exact hfs h0
    have hrun : ∀ j, fs' ≤ j → j < i + 1 → bitmapTest bitmap j = false := by
      intro j h1 h2
      by_cases hj : j = i
      · subst hj; simpa using hb
      · exact hfree j (by omega) (by rw [hfs', if_neg (by omega)] at h1; exact h1) (by omega)
    simp only [hb, Bool.not_false, if_true, ← hfs', u64_of_lt (show fc + 1 < 2 ^ 64 by omega)] at h
    split_ifs at h with hc
    · cases h
      exact ⟨hlo', by omega, by omega, fun j h1 h2 => hrun j h1 (by omega)⟩
    have := ih h (by omega) (fun _ => by omega) (by omega) (fun _ => hlo') fun j _ => hrun j
    exact ⟨this.1, by omega, this.2.2⟩

lemma bitmapFindFreeRegion_some (h : bitmapFindFreeRegion bitmap start stop count = some p) (hs : stop < 2 ^ 63) :
    start ≤ p ∧ p + count ≤ stop ∧ 0 < count ∧
      ∀ j, p ≤ j → j < p + count → bitmapTest bitmap j = false := by
  by_cases hle : start ≤ stop
  · have := bitmapFindFreeRegionLoop_some (a := start) h (by omega) (fun h => absurd rfl h) le_rfl
      (fun h => absurd rfl h) fun _ h => absurd rfl h
    exact ⟨this.1, by omega, this.2.2⟩
  rw [bitmapFindFreeRegion, show stop - start = 0 by omega] at h
  simp [bitmapFindFreeRegionLoop] at h

namespace Pmm

/-! ## Layout, free frames, invariant -/

/-- The bounds of the zones. -/
structure Layout (s : Pmm) : Prop where
  dma_start : (s.zones .dma).startPfn = 0
  dma_end : (s.zones .dma).endPfn ≤ 0x1000
  normal_start : (s.zones .normal).startPfn = 0x1000
  normal_end : (s.zones .normal).endPfn ≤ 0x100000
  high_start : (s.zones .high).startPfn = 0x100000
  high_end : (s.zones .high).endPfn ≤ 0x100000

/-- The free frames of a zone: the clear bits in `[start_pfn, end_pfn)`. -/
def freeFrames (s : Pmm) (z : ZoneType) : Finset ℕ :=
  (Ico (s.zones z).startPfn (s.zones z).endPfn).filter fun pfn =>
    bitmapTest s.bitmap pfn = false

def FrameFree (s : Pmm) (pfn : ℕ) : Prop := ∃ z, pfn ∈ s.freeFrames z

/-- The counters count the clear bits of the bitmap. -/
structure Inv (s : Pmm) : Prop extends Layout s where
  zone_free : ∀ z, (s.zones z).freePages = (s.freeFrames z).card
  total_free : s.freePages = (s.zones .dma).freePages + (s.zones .normal).freePages + (s.zones .high).freePages

lemma mem_freeFrames : pfn ∈ s.freeFrames z ↔
    ((s.zones z).startPfn ≤ pfn ∧ pfn < (s.zones z).endPfn) ∧ bitmapTest s.bitmap pfn = false := by
  rw [freeFrames, mem_filter, mem_Ico]

namespace Layout

variable {s : Pmm} (h : s.Layout)
include h

lemma end_le (z : ZoneType) : (s.zones z).endPfn ≤ 0x100000 := by
  cases z
  · exact h.dma_end.trans (by norm_num)
  · exact h.normal_end
  · exact h.high_end

lemma zone_unique {z' : ZoneType} (hz : (s.zones z).startPfn ≤ pfn)
    (hz' : pfn < (s.zones z).endPfn) (hw : (s.zones z').startPfn ≤ pfn)
    (hw' : pfn < (s.zones z').endPfn) : z = z' := by
  have h1 := h.dma_start; have h2 := h.dma_end
  have h3 := h.normal_start; have h4 := h.normal_end
  have h5 := h.high_start; have h6 := h.high_end
  cases z <;> cases z' <;> first | rfl | omega

lemma pfnToZone_eq_some : s.pfnToZone pfn = some z ↔
    (s.zones z).startPfn ≤ pfn ∧ pfn < (s.zones z).endPfn := by
  constructor
  · intro hz
    have := List.find?_some hz
    simpa using this
  rintro ⟨h1, h2⟩
  cases hf : s.pfnToZone pfn with
  | none =>
    have := List.find?_eq_none.mp hf z (by cases z <;> simp [ZoneType.all])
    simp [h1, h2] at this
  | some z' =>
    have := List.find?_some hf
    simp only [Bool.and_eq_true, decide_eq_true_eq] at this
    rw [h.zone_unique h1 h2 this.1 this.2]

end Layout

lemma Inv.zone_free_le (h : s.Inv) (z : ZoneType) : (s.zones z).freePages ≤ 0x100000 := by
  rw [h.zone_free]
  refine (card_filter_le ..).trans ?_
  rw [Nat.card_Ico]
  have := h.end_le z
  omega

lemma Inv.free_le (h : s.Inv) : s.freePages ≤ 0x300000 := by
  have h1 := h.zone_free_le .dma
  have h2 := h.zone_free_le .normal
  have h3 := h.zone_free_le .high
  have := h.total_free
  omega

def SameLayout (s t : Pmm) : Prop :=
  ∀ z, (t.zones z).startPfn = (s.zones z).startPfn ∧ (t.zones z).endPfn = (s.zones z).endPfn

/-- The free frames `A` of a zone are taken. -/
structure Takes (s t : Pmm) (z : ZoneType) (A : Finset ℕ) : Prop where
  sub : A ⊆ s.freeFrames z
  bits : ∀ j, bitmapTest t.bitmap j = (decide (j ∈ A) || bitmapTest s.bitmap j)
  layout : SameLayout s t
  zone_free : ∀ w, (t.zones w).freePages = if w = z then (s.zones w).freePages - A.card else (s.zones w).freePages
  total : t.freePages = s.freePages - A.card

/-- A used frame is given back. -/
structure Gives (s t : Pmm) (z : ZoneType) (pfn : ℕ) : Prop where
  lower : (s.zones z).startPfn ≤ pfn
  upper : pfn < (s.zones z).endPfn
  used : bitmapTest s.bitmap pfn = true
  bits : ∀ j, bitmapTest t.bitmap j = (!decide (j = pfn) && bitmapTest s.bitmap j)
  layout : SameLayout s t
  zone_free : ∀ w, (t.zones w).freePages = if w = z then (s.zones w).freePages + 1 else (s.zones w).freePages
  total : t.freePages = s.freePages + 1

lemma SameLayout.inv (hl : SameLayout s t) (h : s.Layout) : t.Layout := by
  have h1 := hl .dma; have h2 := hl .normal; have h3 := hl .high
  exact ⟨h1.1.trans h.dma_start, h1.2.trans_le h.dma_end, h2.1.trans h.normal_start,
    h2.2.trans_le h.normal_end, h3.1.trans h.high_start, h3.2.trans_le h.high_end⟩

lemma Takes.freeFrames_eq (h : Takes s t z A)
    (w : ZoneType) : t.freeFrames w = s.freeFrames w \ A := by
  ext j
  rw [mem_sdiff, mem_freeFrames, mem_freeFrames, (h.layout w).1, (h.layout w).2, h.bits]
  by_cases hj : j ∈ A <;> simp [hj]

lemma Takes.disjoint {w : ZoneType} (h : Takes s t z A)
    (hs : s.Layout) (hw : w ≠ z) : Disjoint (s.freeFrames w) A := by
  rw [disjoint_left]
  intro j hj hA
  have h1 := (mem_freeFrames.mp hj).1
  have h2 := (mem_freeFrames.mp (h.sub hA)).1
  exact hw (hs.zone_unique h1.1 h1.2 h2.1 h2.2)

lemma Inv.takes (hs : s.Inv) (h : Takes s t z A) : t.Inv := by
  have hcard : A.card ≤ (s.zones z).freePages := by
    rw [hs.zone_free]; exact card_le_card h.sub
  refine ⟨h.layout.inv hs.toLayout, fun w => ?_, ?_⟩
  · rw [h.zone_free, h.freeFrames_eq]
    split_ifs with hw
    · subst hw
      rw [card_sdiff_of_subset h.sub, hs.zone_free]
    · rw [sdiff_eq_self_of_disjoint (h.disjoint hs.toLayout hw), hs.zone_free]
  rw [h.total, h.zone_free, h.zone_free, h.zone_free, hs.total_free]
  cases z <;> simp <;> omega

lemma Gives.freeFrames_eq (h : Gives s t z pfn) (hs : s.Layout) (w : ZoneType) :
    t.freeFrames w = if w = z then insert pfn (s.freeFrames w) else s.freeFrames w := by
  ext j
  rw [mem_freeFrames, (h.layout w).1, (h.layout w).2, h.bits]
  split_ifs with hw
  · subst hw
    rw [mem_insert, mem_freeFrames]
    by_cases hj : j = pfn
    · subst hj; simp [h.lower, h.upper]
    · simp [hj]
  rw [mem_freeFrames]
  by_cases hj : j = pfn
  · subst hj
    simp only [decide_true, Bool.not_true, Bool.false_and, and_true, h.used, Bool.true_eq_false,
      and_false, iff_false]
    rintro ⟨h1, h2⟩
    exact hw (hs.zone_unique h1 h2 h.lower h.upper)
  · simp [hj]

lemma Inv.gives (hs : s.Inv) (h : Gives s t z pfn) : t.Inv := by
  refine ⟨h.layout.inv hs.toLayout, fun w => ?_, ?_⟩
  · rw [h.zone_free, h.freeFrames_eq hs.toLayout]
    split_ifs with hw
    · subst hw
      rw [card_insert_of_notMem, hs.zone_free]
      rw [mem_freeFrames, h.used]
      simp
    · exact hs.zone_free w
  rw [h.total, h.zone_free, h.zone_free, h.zone_free, hs.total_free]
  cases z <;> simp <;> omega

end Pmm

end Obelisk
