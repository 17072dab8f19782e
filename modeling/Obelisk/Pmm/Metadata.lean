import Obelisk.Pmm.Boot
import Obelisk.Pmm.Region

/-!
# The page metadata

`pmm_init` parses the memory map, and then `pmm_init_page_metadata` allocates the `struct page`
array and gives every frame one reference of the kernel, the free ones too.
-/

namespace Obelisk

open KLib List Option

variable {fuel n pfn : ℕ} {g : Page → Page}

namespace Pmm

def pfnToPageStruct (s : Pmm) (pfn : ℕ) : Option Page :=
  match s.pageArray with
  | none => none
  | some pages => if s.pageArrayCount ≤ pfn then none else some (pages pfn)

end Pmm

def pageStructSize : ℕ := 40

def Page.zero : Page := ⟨0, 0, .dma, .free⟩

def Page.initial (zone : Option ZoneType) : Page where
  flags := if zone = some .dma then pageFlagReserved ||| pageFlagDma else pageFlagReserved
  refcount := 1
  zone := zone.getD .normal
  owner := .kernel

def Page.backing (pg : Page) : Page :=
  { pg with flags := pg.flags ||| pageFlagKernel, owner := .kernel, refcount := 1 }

def metaPages (total : ℕ) : ℕ := alignUp (u64 (total * pageStructSize)) pageSize / pageSize

def pmmInitPageMetadata (s : Pmm) : Option Pmm :=
  if s.totalPages = 0 then some s
  else
    let count := metaPages s.totalPages
    let (phys, s) := pmmAllocPages count s
    if phys = 0 then none
    else
      let s := { s with pageArray := some fun _ => Page.zero, pageArrayCount := s.totalPages }
      let s := forRange (fun pfn s => s.updatePage pfn fun _ => Page.initial (s.pfnToZone pfn))
        0 s.totalPages s
      some (forRange (fun i s => s.updatePage (physToPfn (u64 (phys + i * pageSize))) Page.backing) 0 count s)

open Physmem in
def pmmInit (mem : Memory) (kernel : KernelImage) (mbi : ℕ) : Option Pmm :=
  (physmemInit mem kernel multiboot2Magic mbi pmmStatic).bind pmmInitPageMetadata

def Page.IsFree (pg : Page) : Prop := pg.owner = .free ∧ pg.refcount = 0

namespace Pmm

def Agrees (s : Pmm) (pfn : ℕ) : Prop :=
  ∃ pg, s.pfnToPageStruct pfn = some pg ∧ (pg.IsFree ↔ bitmapTest s.bitmap pfn = false)

/-! ## What an operation does to the metadata -/

/-- Some bits turn to `b`, and the metadata of these frames is written; nothing else changes. -/
structure Turns (b : Bool) (s t : Pmm) : Prop where
  layout : SameLayout s t
  total : t.totalPages = s.totalPages
  frame : ∀ f, bitmapTest t.bitmap f = bitmapTest s.bitmap f ∧ t.pfnToPageStruct f = s.pfnToPageStruct f ∨
      bitmapTest s.bitmap f = !b ∧ bitmapTest t.bitmap f = b ∧
        (t.pfnToPageStruct f).isSome = (s.pfnToPageStruct f).isSome ∧
        ∀ pg, t.pfnToPageStruct f = some pg → (pg.IsFree ↔ b = false)

variable {s t u : Pmm} {b : Bool} {f : ℕ}

lemma Turns.refl (b : Bool) (s : Pmm) : Turns b s s :=
  ⟨fun _ => ⟨rfl, rfl⟩, rfl, fun _ => .inl ⟨rfl, rfl⟩⟩

lemma Turns.trans (h : Turns b s t) (h' : Turns b t u) : Turns b s u := by
  refine ⟨fun z => ⟨(h'.layout z).1.trans (h.layout z).1, (h'.layout z).2.trans (h.layout z).2⟩,
    h'.total.trans h.total, fun f => ?_⟩
  obtain ⟨h1, h2⟩ | ⟨h1, h2, h3, h4⟩ := h.frame f
  · rw [← h1, ← h2]
    exact h'.frame f
  obtain ⟨h1', h2'⟩ | ⟨h1', -⟩ := h'.frame f
  · rw [h1', h2']
    exact .inr ⟨h1, h2, h3, h4⟩
  cases b
  · exact absurd (h2.symm.trans h1') Bool.false_ne_true
  · exact absurd (h1'.symm.trans h2) Bool.false_ne_true

lemma pfnToPageStruct_updatePage (s : Pmm) (pfn : ℕ) (g : Page → Page) (f : ℕ) :
    (s.updatePage pfn g).pfnToPageStruct f =
      if f = pfn then (s.pfnToPageStruct f).map g else s.pfnToPageStruct f := by
  obtain ⟨zones, bitmap, total, free, usable, array, count⟩ := s
  cases array with
  | none => simp [updatePage, pfnToPageStruct]
  | some pages =>
    by_cases hf : f = pfn
    · subst hf
      by_cases hle : count ≤ f <;> simp [updatePage, pfnToPageStruct, hle]
    by_cases hle : count ≤ pfn <;> simp [updatePage, pfnToPageStruct, hle, hf]

lemma turns_updatePage (hlayout : SameLayout s t)
    (htotal : t.totalPages = s.totalPages) (harray : t.pageArray = s.pageArray)
    (hcount : t.pageArrayCount = s.pageArrayCount)
    (hbits : ∀ j, j ≠ pfn → bitmapTest t.bitmap j = bitmapTest s.bitmap j)
    (hold : bitmapTest s.bitmap pfn = !b) (hnew : bitmapTest t.bitmap pfn = b)
    (hg : ∀ pg, (g pg).IsFree ↔ b = false) : Turns b s (t.updatePage pfn g) := by
  have hpages : ∀ f, t.pfnToPageStruct f = s.pfnToPageStruct f := fun f => by
    rw [pfnToPageStruct, harray, hcount]
    rfl
  refine ⟨fun z => ?_, ?_, fun f => ?_⟩
  · rw [updatePage_zones]
    exact hlayout z
  · rw [← htotal, updatePage]
    split
    · rfl
    · split_ifs <;> rfl
  rw [updatePage_bitmap, pfnToPageStruct_updatePage, hpages]
  by_cases hf : f = pfn
  · subst hf
    rw [if_pos rfl]
    refine .inr ⟨hold, hnew, isSome_map, fun pg hpg => ?_⟩
    obtain ⟨pg', -, rfl⟩ := map_eq_some_iff.mp hpg
    exact hg pg'
  rw [if_neg hf]
  exact .inl ⟨hbits f hf, rfl⟩

lemma forRange_turns {g : ℕ → Pmm → Pmm} (hg : ∀ i t, Turns b t (g i t)) (i n : ℕ) (s : Pmm) :
    Turns b s (forRange g i n s) :=
  forRange_inv (fun _ t => Turns b s t) (Turns.refl b s) fun k t _ _ ht => ht.trans (hg k t)

end Pmm

lemma Page.release_isFree (z : ZoneType) (pg : Page) : (pg.release z).IsFree := by
  rw [Page.release, Page.markDma]
  split_ifs <;> exact ⟨rfl, rfl⟩

lemma Page.claim_not_isFree (z : ZoneType) (owner : PageOwner) (pg : Page) :
    ¬ (pg.claim z owner).IsFree := by
  rw [Page.claim, Page.markDma]
  split_ifs <;> exact fun h => absurd h.2 one_ne_zero

namespace Pmm

variable {s t u : Pmm} {b : Bool} {f : ℕ}

lemma sameLayout_update {z : ZoneType} {zone : PmmZone} (hzones : t.zones = Function.update s.zones z zone)
    (hstart : zone.startPfn = (s.zones z).startPfn) (hend : zone.endPfn = (s.zones z).endPfn) :
    SameLayout s t := by
  intro w
  rw [hzones, Function.update_apply]
  split_ifs with hw
  · rw [hw]
    exact ⟨hstart, hend⟩
  · exact ⟨rfl, rfl⟩

lemma markFrameFree_turns (pfn : ℕ) (s : Pmm) : Turns false s (markFrameFree pfn s) := by
  rw [markFrameFree]
  split
  · exact Turns.refl _ _
  rename_i z _
  split_ifs with hb
  · refine turns_updatePage (sameLayout_update rfl rfl rfl) rfl rfl rfl (fun j hj => ?_)
      hb ?_ fun pg => iff_of_true (Page.release_isFree z pg) rfl
    · simp [hj]
    · simp
  · exact Turns.refl _ _

lemma pmmFreePage_turns (phys : ℕ) (s : Pmm) : Turns false s (pmmFreePage phys s) := by
  rw [pmmFreePage]
  dsimp only
  split
  · exact Turns.refl _ _
  rename_i z _
  split_ifs with hb
  · exact Turns.refl _ _
  rw [Bool.not_eq_true, Bool.not_eq_false'] at hb
  refine turns_updatePage (sameLayout_update rfl rfl rfl) rfl rfl rfl (fun j hj => ?_)
    hb ?_ fun pg => iff_of_true (Page.release_isFree z pg) rfl
  · simp [hj]
  · simp

lemma markFrameUsed_turns (pfn : ℕ) (s : Pmm) : Turns true s (markFrameUsed pfn s) := by
  rw [markFrameUsed]
  split
  · exact Turns.refl _ _
  rename_i z _
  split_ifs with hb
  · rw [Bool.not_eq_true'] at hb
    refine turns_updatePage (sameLayout_update rfl rfl rfl) rfl rfl rfl (fun j hj => ?_)
      hb ?_ fun pg => iff_of_false (Page.claim_not_isFree z _ pg) (Ne.symm Bool.false_ne_true)
    · simp [hj]
    · simp
  · exact Turns.refl _ _

lemma pmmAllocPageZone_turns (z : ZoneType) (s : Pmm) : Turns true s (pmmAllocPageZone z s).2 := by
  rw [pmmAllocPageZone]
  split_ifs
  · exact Turns.refl _ _
  split
  · exact Turns.refl _ _
  rename_i pfn hfind
  refine turns_updatePage (sameLayout_update rfl rfl rfl) rfl rfl rfl (fun j hj => ?_)
    (bitmapFindFree_some hfind).2.2 ?_
    fun pg => iff_of_false (Page.claim_not_isFree z _ pg) (Ne.symm Bool.false_ne_true)
  · simp [hj]
  · simp

lemma pmmAllocPagesZone_turns (hs : s.Inv) (count : ℕ) (z : ZoneType) :
    Turns true s (pmmAllocPagesZone count z s).2 := by
  rw [pmmAllocPagesZone]
  split_ifs
  · exact Turns.refl _ _
  split
  · exact Turns.refl _ _
  rename_i pfn hfind
  have hend := hs.end_le z
  have hfree := (bitmapFindFreeRegion_some hfind (by omega)).2.2.2
  -- the frames that the loop has still to claim are free
  have hloop := forRange_inv (f := claimFrame z) (i := pfn) (n := count) (s := s)
    (fun k t => Turns true s t ∧ ∀ j, k ≤ j → j < pfn + count → bitmapTest t.bitmap j = false)
    ⟨Turns.refl .., hfree⟩ fun k t _ hk ht => by
      refine ⟨ht.1.trans (turns_updatePage (fun _ => ⟨rfl, rfl⟩) rfl rfl rfl (fun j hj => ?_)
        (ht.2 k le_rfl hk) ?_ fun pg =>
          iff_of_false (Page.claim_not_isFree z _ pg) (Ne.symm Bool.false_ne_true)),
        fun j h1 h2 => ?_⟩
      · simp [hj]
      · simp
      have hne : j ≠ k := by omega
      simpa [claimFrame, hne] using ht.2 j (by omega) h2
  exact hloop.1.trans ⟨sameLayout_update rfl rfl rfl, rfl, fun f => .inl ⟨rfl, rfl⟩⟩

lemma tryZones_turns {g : ZoneType → Pmm → ℕ × Pmm} (hs : s.Inv)
    (hg : ∀ z s, s.Inv → Turns true s (g z s).2 ∧ (g z s).2.Inv) :
    Turns true s (tryZones g s).2 := by
  have h1 := hg .normal s hs
  have h2 := hg .high _ h1.2
  have h3 := hg .dma _ h2.2
  rw [tryZones]
  dsimp only
  split_ifs
  · exact h1.1
  · exact h1.1.trans h2.1
  · exact (h1.1.trans h2.1).trans h3.1

lemma pmmAllocPage_turns (hs : s.Inv) : Turns true s (pmmAllocPage s).2 :=
  tryZones_turns hs fun z s hs => ⟨pmmAllocPageZone_turns z s, (exec_inv hs (.allocPageZone z)).1⟩

lemma pmmAllocPages_turns (hs : s.Inv) (count : ℕ) : Turns true s (pmmAllocPages count s).2 :=
  tryZones_turns hs fun z _ hs =>
    ⟨pmmAllocPagesZone_turns hs count z, (exec_inv hs (.allocPagesZone count z)).1⟩

lemma exec_turns (hs : s.Inv) (op : PmmOp) : ∃ b, Turns b s (op.exec s).2 := by
  cases op with
  | markRegionFree base size =>
    refine ⟨false, ?_⟩
    rw [PmmOp.exec, pmmMarkRegionFree]
    dsimp only
    split_ifs
    · exact Turns.refl _ _
    · exact forRange_turns markFrameFree_turns _ _ s
  | markRegionUsed base size => exact ⟨true, forRange_turns markFrameUsed_turns _ _ s⟩
  | allocPageZone z => exact ⟨true, pmmAllocPageZone_turns z s⟩
  | allocPage => exact ⟨true, pmmAllocPage_turns hs⟩
  | allocPagesZone count z => exact ⟨true, pmmAllocPagesZone_turns hs count z⟩
  | allocPages count => exact ⟨true, pmmAllocPages_turns hs count⟩
  | freePage phys => exact ⟨false, pmmFreePage_turns phys s⟩
  | freePages phys count => exact ⟨false, forRange_turns (fun i t => pmmFreePage_turns _ t) _ _ s⟩

/-! ## The state after initialisation -/

/-- The allocator manages the first `totalPages` frames. -/
structure Sized (s : Pmm) : Prop where
  inv : s.Inv
  managed : ∀ f, s.Managed f ↔ f < s.totalPages

lemma Sized.turns (hs : s.Sized) (h : Turns b s t) (ht : t.Inv) : t.Sized :=
  ⟨ht, fun f => h.total ▸ h.layout.managed_iff.trans (hs.managed f)⟩

lemma Sized.exec (hs : s.Sized) (op : PmmOp) : (op.exec s).2.Sized := by
  obtain ⟨b, hb⟩ := exec_turns hs.inv op
  exact hs.turns hb (exec_inv hs.inv op).1

lemma Sized.markRegionUsed (hs : s.Sized) (base size : ℕ) : (pmmMarkRegionUsed base size s).Sized :=
  hs.exec (.markRegionUsed base size)

lemma initBitmap_sized (numPages : ℕ) : (pmmInitBitmap numPages pmmStatic).Sized := by
  refine ⟨pmmInitBitmap_inv numPages none 0, fun f => (initBitmap_managed numPages f).trans ?_⟩
  have htotal : (pmmInitBitmap numPages pmmStatic).totalPages =
      if numPages > maxBitmapPages then maxBitmapPages else numPages := rfl
  rw [htotal]
  split_ifs <;> omega

end Pmm

namespace Physmem

open Pmm

variable {mem : Memory} {s t : Pmm}

lemma entryLoop_inv {σ : Type} {body : ℕ → σ → σ} (P : σ → Prop) (hbody : ∀ a s, P s → P (body a s))
    {entrySize stop a : ℕ} {s t : σ} (h : entryLoop body entrySize stop fuel a s = some t)
    (hs : P s) : P t := by
  induction fuel generalizing a s with
  | zero => exact nomatch h
  | succ fuel ih =>
    rw [entryLoop] at h
    split_ifs at h
    · exact ih h (hbody a s hs)
    · exact some.inj h ▸ hs

lemma markEntry_sized (entry : ℕ) (hs : s.Sized) : (markEntry mem entry s).Sized := by
  rw [markEntry]
  dsimp only
  split_ifs
  · exact hs.exec (.markRegionFree ..)
  · exact hs
  · exact hs

lemma moduleLoop_sized {tag : ℕ} (h : moduleLoop mem fuel tag s = some t) (hs : s.Sized) :
    t.Sized := by
  induction fuel generalizing tag s with
  | zero => exact nomatch h
  | succ fuel ih =>
    rw [moduleLoop] at h
    dsimp only at h
    split at h
    · exact some.inj h ▸ hs
    refine ih h ?_
    split_ifs
    · exact hs.markRegionUsed _ _
    · exact hs

lemma physmemInit_sized {kernel : KernelImage} {magic mbi : ℕ}
    (h : physmemInit mem kernel magic mbi pmmStatic = some s) : s.Sized := by
  rw [physmemInit] at h
  split at h
  · cases h
  split at h
  · cases h
  · cases h
  dsimp only at h
  split at h
  · cases h
  split at h
  · cases h
  rename_i hmap
  have h1 := entryLoop_inv Sized (fun a s => markEntry_sized a) hmap (initBitmap_sized _)
  exact moduleLoop_sized h (((h1.markRegionUsed ..).markRegionUsed ..).markRegionUsed ..)

end Physmem

namespace Pmm

variable {s t : Pmm} {b : Bool} {f : ℕ}

/-- After `n` rounds of the loop over the page structures. -/
structure Prepared (s t : Pmm) (n : ℕ) : Prop where
  zones : t.zones = s.zones
  bitmap : t.bitmap = s.bitmap
  freePages : t.freePages = s.freePages
  isSome : ∀ f, (t.pfnToPageStruct f).isSome ↔ f < s.totalPages
  used : ∀ f < n, ∀ pg, t.pfnToPageStruct f = some pg → ¬ pg.IsFree

lemma Prepared.updatePage {m : ℕ} (h : Prepared s t n)
    (hg : ∀ pg, ¬ (g pg).IsFree) (hm : ∀ f < m, f < n ∨ f = pfn) :
    Prepared s (t.updatePage pfn g) m := by
  refine ⟨?_, ?_, ?_, fun f => ?_, fun f hf pg hpg => ?_⟩
  · rw [updatePage_zones, h.zones]
  · rw [updatePage_bitmap, h.bitmap]
  · rw [updatePage_freePages, h.freePages]
  · rw [← h.isSome, pfnToPageStruct_updatePage]
    split_ifs
    · rw [isSome_map]
    · exact .rfl
  rw [pfnToPageStruct_updatePage] at hpg
  split_ifs at hpg with hne
  · obtain ⟨pg', -, rfl⟩ := map_eq_some_iff.mp hpg
    exact hg pg'
  · exact h.used f ((hm f hf).resolve_right hne) pg hpg

lemma Prepared.inv (h : Prepared s t n) (hs : s.Inv) : t.Inv := by
  obtain ⟨zones, bitmap, total, free, usable, array, count⟩ := s
  obtain ⟨zones', bitmap', total', free', usable', array', count'⟩ := t
  obtain rfl : zones' = zones := h.zones
  obtain rfl : bitmap' = bitmap := h.bitmap
  obtain rfl : free' = free := h.freePages
  exact ⟨⟨hs.dma_start, hs.dma_end, hs.normal_start, hs.normal_end, hs.high_start, hs.high_end⟩, hs.zone_free, hs.total_free⟩

lemma pmmInitPageMetadata_prepared (htotal : s.totalPages ≠ 0)
    (hphys : (pmmAllocPages (metaPages s.totalPages) s).1 ≠ 0) :
    ∃ t, pmmInitPageMetadata s = some t ∧ Prepared (pmmAllocPages (metaPages s.totalPages) s).2 t
      (pmmAllocPages (metaPages s.totalPages) s).2.totalPages := by
  rw [pmmInitPageMetadata, if_neg htotal]
  dsimp only
  rw [if_neg hphys]
  refine ⟨_, rfl, ?_⟩
  generalize pmmAllocPages (metaPages s.totalPages) s = r
  have hfirst := forRange_inv (i := 0) (n := r.2.totalPages)
    (s := { r.2 with pageArray := some fun _ => Page.zero, pageArrayCount := r.2.totalPages })
    (f := fun pfn s => s.updatePage pfn fun _ => Page.initial (s.pfnToZone pfn))
    (fun k t => Prepared r.2 t k) ⟨rfl, rfl, rfl, fun f => ?_, nofun⟩
    fun k t _ _ ht => ht.updatePage (fun pg h => absurd h.2 one_ne_zero)
      fun f hf => Nat.lt_succ_iff_lt_or_eq.mp hf
  · rw [zero_add] at hfirst
    exact forRange_inv (fun _ t => Prepared r.2 t r.2.totalPages) hfirst
      fun k t _ _ ht => ht.updatePage (fun pg h => absurd h.2 one_ne_zero) fun f hf => .inl hf
  rw [pfnToPageStruct]
  dsimp only
  split_ifs with hle <;> simpa using hle

lemma Prepared.managed_iff (h : Prepared s t n) : t.Managed f ↔ s.Managed f := by
  rw [Managed, Managed, h.zones]

lemma pmmInitPageMetadata_spec (hs : s.Sized) (h : pmmInitPageMetadata s = some t) :
    t.Inv ∧ ∀ f, t.Managed f → ∃ pg, t.pfnToPageStruct f = some pg ∧ ¬ pg.IsFree := by
  by_cases htotal : s.totalPages = 0
  · rw [pmmInitPageMetadata, if_pos htotal] at h
    cases h
    exact ⟨hs.inv, fun f hf => absurd ((hs.managed f).mp hf) (by omega)⟩
  by_cases hphys : (pmmAllocPages (metaPages s.totalPages) s).1 = 0
  · rw [pmmInitPageMetadata, if_neg htotal] at h
    dsimp only at h
    rw [if_pos hphys] at h
    exact nomatch h
  obtain ⟨t', ht', hall⟩ := pmmInitPageMetadata_prepared htotal hphys
  obtain rfl := some.inj (ht'.symm.trans h)
  have hs' : (pmmAllocPages (metaPages s.totalPages) s).2.Sized := hs.exec (.allocPages _)
  refine ⟨hall.inv hs'.inv, fun f hf => ?_⟩
  have hlt := (hs'.managed f).mp (hall.managed_iff.mp hf)
  obtain ⟨pg, hpg⟩ := isSome_iff_exists.mp ((hall.isSome f).mpr hlt)
  exact ⟨pg, hpg, hall.used f hlt pg hpg⟩

lemma Agrees.turns (hs : s.Agrees f) (h : Turns b s t) : t.Agrees f := by
  obtain ⟨pg, hpg, hiff⟩ := hs
  obtain ⟨h1, h2⟩ | ⟨-, h2, h3, h4⟩ := h.frame f
  · exact ⟨pg, h2.trans hpg, by rw [h1, hiff]⟩
  rw [hpg] at h3
  obtain ⟨pg', hpg'⟩ := isSome_iff_exists.mp h3
  exact ⟨pg', hpg', by rw [h2, h4 pg' hpg']⟩

lemma Agrees.run (hs : s.Inv) (h : s.Agrees f) (ops : List PmmOp) : (pmmRun s ops).Agrees f := by
  induction ops generalizing s with
  | nil => exact h
  | cons op ops ih =>
    obtain ⟨b, hb⟩ := exec_turns hs op
    exact ih (exec_inv hs op).1 (h.turns hb)

lemma agrees_run_iff (hs : s.Inv) {pg : Page} (hpg : s.pfnToPageStruct f = some pg)
    (hused : ¬ pg.IsFree) (ops : List PmmOp) :
    (pmmRun s ops).Agrees f ↔ ∃ pre, pre <+: ops ∧ bitmapTest (pmmRun s pre).bitmap f = true := by
  induction ops generalizing s pg with
  | nil =>
    have hagrees : s.Agrees f ↔ bitmapTest s.bitmap f = true := by
      rw [Agrees, hpg]
      simp [hused]
    refine hagrees.trans ⟨fun h => ⟨[], nil_prefix, h⟩, ?_⟩
    rintro ⟨pre, hpre, h⟩
    obtain rfl := prefix_nil.mp hpre
    exact h
  | cons op ops ih =>
    by_cases hbit : bitmapTest s.bitmap f = true
    · have hagrees : s.Agrees f := ⟨pg, hpg, iff_of_false hused (by simp [hbit])⟩
      exact iff_of_true (hagrees.run hs _) ⟨[], nil_prefix, hbit⟩
    have hpre : (∃ pre, pre <+: op :: ops ∧ bitmapTest (pmmRun s pre).bitmap f = true) ↔
        ∃ pre, pre <+: ops ∧ bitmapTest (pmmRun (op.exec s).2 pre).bitmap f = true := by
      constructor
      · rintro ⟨pre, hpre, h⟩
        obtain rfl | ⟨pre', rfl, hpre'⟩ := prefix_cons_iff.mp hpre
        · exact absurd h hbit
        · exact ⟨pre', hpre', h⟩
      rintro ⟨pre, hpre, h⟩
      exact ⟨op :: pre, cons_prefix_cons.mpr ⟨rfl, hpre⟩, h⟩
    rw [hpre]
    -- a free frame is left alone or becomes used, so it still has a reference
    obtain ⟨b, hb⟩ := exec_turns hs op
    obtain ⟨-, h2⟩ | ⟨h1, -, h3, h4⟩ := hb.frame f
    · exact ih (exec_inv hs op).1 (h2.trans hpg) hused
    obtain rfl : b = true := by
      cases b
      · exact absurd h1 hbit
      · rfl
    rw [hpg] at h3
    obtain ⟨pg', hpg'⟩ := isSome_iff_exists.mp h3
    exact ih (exec_inv hs op).1 hpg' fun h => absurd ((h4 pg' hpg').mp h) (by decide)

end Pmm

open Physmem Pmm

lemma pmmAllocPages_dma {s : Pmm} (hs : s.Inv) (hlow : ∀ f, s.FrameFree f → f < 0x1000) {p : ℕ}
    (hn : 0 < n) (hrun : s.ZoneRun .dma n p) (h0 : ¬ s.FrameFree 0) :
    (pmmAllocPages n s).1 ≠ 0 ∧ ∀ f, p + n ≤ f →
      bitmapTest (pmmAllocPages n s).2.bitmap f = bitmapTest s.bitmap f := by
  have hempty : ∀ z, z ≠ .dma → pmmAllocPagesZone n z s = (0, s) := by
    intro z hz
    obtain ⟨he, -⟩ | ⟨q, hq, -⟩ := pmmAllocPagesZone_lowest hs hn z
    · exact he
    have hlt := hlow q (frameFree_iff.mpr
      ⟨⟨z, hq.run.lower, by have := hq.run.upper; omega⟩, hq.run.free q le_rfl (by omega)⟩)
    have hstart := hq.run.lower
    have h1 := hs.normal_start
    have h2 := hs.high_start
    cases z with
    | dma => exact absurd rfl hz
    | normal | high => omega
  have heq : pmmAllocPages n s = pmmAllocPagesZone n .dma s := by
    rw [pmmAllocPages, tryZones, hempty .normal (by decide)]
    dsimp only
    rw [if_neg (fun h => h rfl), hempty .high (by decide)]
    dsimp only
    rw [if_neg (fun h => h rfl)]
  obtain ⟨-, hno⟩ | ⟨q, hq, haddr⟩ := pmmAllocPagesZone_lowest hs hn .dma
  · exact absurd hrun (hno p)
  have hq0 : q ≠ 0 := by
    rintro rfl
    exact h0 (frameFree_iff.mpr
      ⟨⟨.dma, hq.run.lower, by have := hq.run.upper; omega⟩, hq.run.free 0 le_rfl (by omega)⟩)
  have hqp : q ≤ p := le_of_not_gt fun h => hq.lowest p h hrun
  have hne : (pmmAllocPages n s).1 ≠ 0 := by
    rw [heq, haddr]
    exact Nat.mul_ne_zero hq0 (by decide)
  refine ⟨hne, fun f hf => ?_⟩
  obtain he | ⟨pfn, -, hpfn, ht⟩ := pmmAllocPagesZone_cases hs n .dma
  · rw [heq, he]
  have hend := hs.end_le .dma
  have hmem := mem_freeFrames.mp (ht.sub (Finset.mem_Ico.mpr ⟨le_rfl, Nat.lt_add_of_pos_right hn⟩))
  have hpq : pfn = q := by
    rw [haddr, pfnToPhys, Nat.shiftLeft_eq, u64_of_lt (by omega)] at hpfn
    rw [pageSize] at hpfn
    omega
  rw [heq, ht.bits]
  have hnot : f ∉ Finset.Ico pfn (pfn + n) := fun h => by
    have := (Finset.mem_Ico.mp h).2
    omega
  simp [hnot]

lemma small_init : ∃ s, pmmInit (infoBlock 0x102000) smallKernel 0x102000 = some s ∧ s.Inv ∧
    s.Managed 0x10f ∧ bitmapTest s.bitmap 0x10f = false ∧
    ∃ pg, s.pfnToPageStruct 0x10f = some pg ∧ ¬ pg.IsFree := by
  obtain ⟨s, hs, hinv, hman, hfree⟩ := (smallInfo 0x102000 rfl (by decide)).physmemInit_free
    smallKernel (show mbiPhys 0x102000 = 0x102000 by decide) (by decide)
  have hlimit : (smallInfo 0x102000 rfl (by decide)).limit = 0x110 := by decide
  simp only [hlimit] at hman hfree
  have hsized := physmemInit_sized hs
  have htotal : s.totalPages = 0x110 := by
    have h1 := (hsized.managed s.totalPages).symm.trans (hman s.totalPages)
    have h2 := (hsized.managed 0x110).symm.trans (hman 0x110)
    omega
  have havail : ∀ f, 0x103 ≤ f → f < 0x110 → s.FrameFree f := by
    intro f h1 h2
    refine (hfree f).mpr ⟨h2, .inl ⟨_, mem_singleton_self _, rfl, Nat.zero_le _, ?_⟩, ?_⟩
    · change (f + 1) * 4096 ≤ 0 + 0x110000
      omega
    have hsize : alignUp32 (get32 (infoBlock 0x102000) 0x102000) = 4096 := by decide
    rintro (⟨-, h⟩ | ⟨-, h⟩ | ⟨-, h⟩ | ⟨m, hm, -⟩)
    · omega
    · change f < (0x101000 + 4095) / 4096 at h
      omega
    · rw [hsize] at h
      omega
    · exact absurd hm not_mem_nil
  have h0 : ¬ s.FrameFree 0 := fun h => ((hfree 0).mp h).2.2 (.inl ⟨le_rfl, by decide⟩)
  have hdma : ∀ f, s.Managed f → f < (s.zones .dma).endPfn := by
    rintro f ⟨z, hz⟩
    have hlt := (hman f).mp ⟨z, hz⟩
    have h1 := hinv.normal_start
    have h2 := hinv.high_start
    cases z with
    | dma => exact hz.2
    | normal | high => omega
  have hrun : s.ZoneRun .dma 3 0x103 := by
    refine ⟨hinv.dma_start ▸ Nat.zero_le _, hdma 0x105 ((hman _).mpr (by decide)), fun j h1 h2 => ?_⟩
    exact (frameFree_iff.mp (havail j h1 (by omega))).2
  have hcount : metaPages s.totalPages = 3 := by
    rw [htotal]
    decide
  obtain ⟨hne, hkeep⟩ := pmmAllocPages_dma hinv
    (fun f hf => ((hfree f).mp hf).1.trans (by decide)) (by decide) hrun h0
  obtain ⟨t, ht, hprep⟩ := pmmInitPageMetadata_prepared (s := s) (by omega) (hcount ▸ hne)
  obtain ⟨htinv, hpages⟩ := pmmInitPageMetadata_spec hsized ht
  have hmanaged : t.Managed 0x10f := by
    rw [hprep.managed_iff]
    obtain ⟨b, hb⟩ := exec_turns hinv (.allocPages (metaPages s.totalPages))
    exact hb.layout.managed ((hman _).mpr (by decide))
  refine ⟨t, ?_, htinv, hmanaged, ?_, hpages _ hmanaged⟩
  · rwa [pmmInit, hs]
  rw [hprep.bitmap, hcount, hkeep _ (by decide)]
  exact (frameFree_iff.mp (havail 0x10f (by decide) (by decide))).2

/-- **Main.** From the state that `pmm_init` leaves for any memory map, after any sequence of
operations: the metadata of a managed frame agrees with its bit just when the frame has been in use
at some point since. -/
theorem metadata_agrees_iff {mem : Memory} {kernel : KernelImage} {mbi : ℕ} {s : Pmm}
    (h : pmmInit mem kernel mbi = some s) (ops : List PmmOp) {f : ℕ} (hf : s.Managed f) :
    (pmmRun s ops).Agrees f ↔ ∃ pre, pre <+: ops ∧ bitmapTest (pmmRun s pre).bitmap f = true := by
  obtain ⟨s', hs', hmeta⟩ := bind_eq_some_iff.mp h
  obtain ⟨hinv, hpages⟩ := pmmInitPageMetadata_spec (physmemInit_sized hs') hmeta
  obtain ⟨pg, hpg, hused⟩ := hpages f hf
  exact agrees_run_iff hinv hpg hused ops

theorem metadata_agrees_iff_small : ∃ s, pmmInit (infoBlock 0x102000) smallKernel 0x102000 = some s ∧
    s.Managed 0x10f ∧ (pmmRun s [.markRegionUsed 0x10f000 0x1000]).Agrees 0x10f := by
  obtain ⟨s, hs, hinv, hman, -, -⟩ := small_init
  refine ⟨s, hs, hman, (metadata_agrees_iff hs [.markRegionUsed 0x10f000 0x1000] hman).mpr ⟨_, prefix_rfl, ?_⟩⟩
  have hused := markRegionUsed_free hinv (show 0x10f000 + 0x1000 + 4095 < 2 ^ 64 by decide)
  have hnot : ¬ (pmmMarkRegionUsed 0x10f000 0x1000 s).FrameFree 0x10f := fun h =>
    ((hused.free _).mp h).2 ⟨by decide, by decide⟩
  by_contra hbit
  exact hnot (frameFree_iff.mpr ⟨(hused.managed _).mpr hman, Bool.not_eq_true _ ▸ hbit⟩)

theorem free_frame_has_reference : ∃ s, pmmInit (infoBlock 0x102000) smallKernel 0x102000 = some s ∧
    s.Managed 0x10f ∧ bitmapTest s.bitmap 0x10f = false ∧ ¬ s.Agrees 0x10f := by
  obtain ⟨s, hs, -, hman, hbit, pg, hpg, hused⟩ := small_init
  refine ⟨s, hs, hman, hbit, ?_⟩
  rintro ⟨pg', hpg', hiff⟩
  obtain rfl := some.inj (hpg.symm.trans hpg')
  exact hused (hiff.mpr hbit)

end Obelisk
