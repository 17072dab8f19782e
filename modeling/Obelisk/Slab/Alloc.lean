import Obelisk.Slab.Lists

/-!
# Allocating from a cache

`kmem_cache_alloc` takes the first free object of a slab.
-/

namespace Obelisk

open KLib Function Finset Option List KmemCache

variable {i n slab : ℕ} {g : SlabGeom} {pmm' : Pmm} {sizes' : ℕ → ℕ} {C : ℕ → Prop} {s₁ : Kmem}
  {used' : ℕ → Finset ℕ} {c' : KmemCache} {slabs' : ℕ → Option Slab} {sl : Slab}

lemma initLinks_isFreeList (h0 : 0 < n) (hlt : n < 2 ^ 32) :
    IsFreeList (initLinks n) uint32Max 0 n ∅ := by
  have hmax : n ≤ uint32Max := by rw [uint32Max]; omega
  refine isFreeList_init h0 hmax (fun j hj => ?_) (update_self ..)
  rw [initLinks, update_of_ne (by omega), forRange_update n (f := fun i => u32 (i + 1)) (by omega),
    u32_of_lt (by omega)]

lemma newSlab_ok {cache : ℕ} (hg : g.Ok) (hp : g.Placed slab) : SlabOk cache g slab {
      base := u64 (slab + sizeofSlab)
      inuse := 0
      freeIdx := 0
      freelist := u64 (u64 (slab + sizeofSlab) + g.objectsPerSlab * g.alignedSize)
      links := initLinks g.objectsPerSlab
      cache := cache } ∅ := by
  have hlt := (hp.lt hg).2
  have hb := SlabGeom.addr_bounds slab hg hg.objs_pos
  have h1 : u64 (slab + sizeofSlab) = slab + sizeofSlab := u64_of_lt (by omega)
  have h2 : u64 (slab + sizeofSlab + g.objectsPerSlab * g.alignedSize) =
      slab + sizeofSlab + g.objectsPerSlab * g.alignedSize := u64_of_lt (by omega)
  exact ⟨hp, h1, by rw [h1, h2], rfl, initLinks_isFreeList hg.objs_pos hg.objs_lt, rfl⟩

section Alloc

variable {s : Kmem} {used : ℕ → Finset ℕ} {cache : ℕ} {c : KmemCache}

lemma KmemInv.setPmm (h : KmemInv s used) (sizes' : ℕ → ℕ) (hinv : pmm'.Inv)
    (hlayout : s.pmm.SameLayout pmm') (hfree : ∀ j, pmm'.FrameFree j → s.pmm.FrameFree j) :
    KmemInv { s with pmm := pmm', sizes := sizes' } used := by
  obtain ⟨e, he⟩ := h.early
  have hslab : ∀ {cache c slab}, HasSlab { s with pmm := pmm', sizes := sizes' } cache c slab →
      HasSlab s cache c slab := fun hs => ⟨hs.listed, hs.cache, hs.slab⟩
  refine ⟨hinv, fun h0 => h.zero (hfree 0 h0), h.ne_zero, h.cache, ?_, ?_, ?_, ⟨e, ?_⟩, ?_, h.sizeCaches⟩
  · exact fun _ _ _ _ _ _ hs hs' hne => h.apart _ _ _ _ _ _ (hslab hs) (hslab hs') hne
  · exact fun _ _ _ hs j hj hf => h.taken _ _ _ (hslab hs) j hj (hfree j hf)
  · exact fun _ _ _ hs j hj => hlayout.managed (h.managed _ _ _ (hslab hs) j hj)
  · exact ⟨he.start, he.stop, he.lt, he.start_le, he.le_stop, fun j hj hf => he.taken j hj (hfree j hf),
      fun _ _ _ hs => he.apart _ _ _ (hslab hs)⟩
  intro cache hin
  rcases h.home cache hin with hearly | ⟨owner, c, slab, i, hs, hi, hx⟩
  · exact .inl hearly
  · exact .inr ⟨owner, c, slab, i, ⟨hs.listed, hs.cache, hs.slab⟩, hi, hx⟩

lemma liveIn_setPmm (o x : ℕ) :
    LiveIn { s with pmm := pmm', sizes := sizes' } used o x ↔ LiveIn s used o x := by
  constructor <;> rintro ⟨c, slab, i, hs, hi, hx⟩ <;>
    exact ⟨c, slab, i, ⟨hs.listed, hs.cache, hs.slab⟩, hi, hx⟩

lemma slabFrame_setPmm (j : ℕ) :
    SlabFrame { s with pmm := pmm', sizes := sizes' } j ↔ SlabFrame s j := by
  constructor <;> rintro ⟨cache, c, slab, hs, hj⟩ <;>
    exact ⟨cache, c, slab, ⟨hs.listed, hs.cache, hs.slab⟩, hj⟩

/-- `s'` is `s` after allocations from the caches `C`: slabs stay, and the frames that are not free any
more belong to slabs of these caches. -/
structure Grows (C : ℕ → Prop) (s s' : Kmem) : Prop where
  cacheList : s'.cacheList = s.cacheList
  sizeCaches : s'.sizeCaches = s.sizeCaches
  slabInitialized : s'.slabInitialized = s.slabInitialized
  slabs : ∀ cache c slab, HasSlab s cache c slab → ∃ c', HasSlab s' cache c' slab ∧ c'.geom = c.geom
  caches : ∀ cache ∈ s.cacheList, ∀ c, s.caches cache = some c → ∃ c', s'.caches cache = some c' ∧ c'.geom = c.geom
  frames : ∀ j, s.pmm.FrameFree j → s'.pmm.FrameFree j ∨
    ∃ cache c slab, C cache ∧ HasSlab s' cache c slab ∧ j ∈ c.geom.frames slab
  pool : ∀ j, s'.pmm.FrameFree j ∨ SlabFrame s' j → s.pmm.FrameFree j ∨ SlabFrame s j

lemma Grows.refl (C : ℕ → Prop) (s : Kmem) : Grows C s s :=
  ⟨rfl, rfl, rfl, fun _ c _ hs => ⟨c, hs, rfl⟩, fun _ _ c hc => ⟨c, hc, rfl⟩, fun _ hj => .inl hj, fun _ hj => hj⟩

lemma Grows.trans {s2 s3 : Kmem} (h1 : Grows C s₁ s2) (h2 : Grows C s2 s3) : Grows C s₁ s3 := by
  refine ⟨h2.cacheList.trans h1.cacheList, h2.sizeCaches.trans h1.sizeCaches,
    h2.slabInitialized.trans h1.slabInitialized, fun cache c slab hs => ?_, fun cache hin c hc => ?_,
    fun j hj => ?_, fun j hj => h1.pool j (h2.pool j hj)⟩
  · obtain ⟨c2, hs2, hg2⟩ := h1.slabs cache c slab hs
    obtain ⟨c3, hs3, hg3⟩ := h2.slabs cache c2 slab hs2
    exact ⟨c3, hs3, hg3.trans hg2⟩
  · obtain ⟨c2, hc2, hg2⟩ := h1.caches cache hin c hc
    obtain ⟨c3, hc3, hg3⟩ := h2.caches cache (h1.cacheList ▸ hin) c2 hc2
    exact ⟨c3, hc3, hg3.trans hg2⟩
  rcases h1.frames j hj with hj | ⟨cache, c, slab, hC, hs, hmem⟩
  · exact h2.frames j hj
  obtain ⟨c', hs', hg⟩ := h2.slabs cache c slab hs
  exact .inr ⟨cache, c', slab, hC, hs', hg ▸ hmem⟩

lemma Grows.mono {D : ℕ → Prop} {s' : Kmem} (h : Grows C s s') (hCD : ∀ x, C x → D x) :
    Grows D s s' :=
  ⟨h.cacheList, h.sizeCaches, h.slabInitialized, h.slabs, h.caches, fun j hj =>
    (h.frames j hj).imp_right fun ⟨cache, c, slab, hC, hrest⟩ => ⟨cache, c, slab, hCD cache hC, hrest⟩,
    h.pool⟩

lemma Grows.setPmm (sizes' : ℕ → ℕ) (hframes : ∀ j, pmm'.FrameFree j ↔ s.pmm.FrameFree j) :
    Grows C s { s with pmm := pmm', sizes := sizes' } :=
  ⟨rfl, rfl, rfl, fun _ c _ hs => ⟨c, ⟨hs.listed, hs.cache, hs.slab⟩, rfl⟩,
    fun _ _ c hc => ⟨c, hc, rfl⟩, fun j hj => .inl ((hframes j).mpr hj),
    fun j hj => hj.imp (hframes j).mp (slabFrame_setPmm j).mp⟩

lemma CacheChange.grows (hc : CacheChange s used used' cache c c' slabs' pmm')
    (hstay : ∀ slab ∈ c.slabs, slab ∈ c'.slabs)
    (hframes : ∀ j, s.pmm.FrameFree j → pmm'.FrameFree j ∨ ∃ slab ∈ c'.slabs, j ∈ c.geom.frames slab) :
    Grows (fun x => x = cache) s (s.change cache c' slabs' pmm') := by
  refine ⟨rfl, rfl, rfl, fun cache1 c1 slab hs => ?_, fun cache1 _ c1 hc1 => ?_, fun j hj => ?_,
    fun j hj => hc.pool hj⟩
  · by_cases he : cache1 = cache
    · subst he
      obtain rfl : c = c1 := some.inj (hc.caches.symm.trans hs.cache)
      exact ⟨c', hc.hasSlab_self (hstay slab hs.slab), hc.geom⟩
    · exact ⟨c1, hasSlab_change_of_ne he hs, rfl⟩
  · by_cases he : cache1 = cache
    · subst he
      obtain rfl : c = c1 := some.inj (hc.caches.symm.trans hc1)
      exact ⟨c', update_self .., hc.geom⟩
    · exact ⟨c1, (update_of_ne he ..).trans hc1, rfl⟩
  rcases hframes j hj with hj | ⟨slab, hmem, hj⟩
  · exact .inl hj
  · exact .inr ⟨cache, c', slab, rfl, hc.hasSlab_self hmem, hc.geom ▸ hj⟩

/-! ## Choosing a slab -/

def NoPages (cache : ℕ) (s : Kmem) : Prop :=
  ∃ c, s.caches cache = some c ∧ c.slabsPartial = [] ∧ c.slabsFree = [] ∧
    (pmmAllocPages (c.slabSize / pageSize) s.pmm).1 = 0

/-- The allocation has picked a slab with a free object. -/
structure Picked (cache slab : ℕ) (s s₁ : Kmem) (used used₁ : ℕ → Finset ℕ) : Prop where
  inv : KmemInv s₁ used₁
  partial_mem : ∃ c₁, s₁.caches cache = some c₁ ∧ slab ∈ c₁.slabsPartial
  grows : Grows (fun x => x = cache) s s₁
  live : ∀ owner x, LiveIn s₁ used₁ owner x ↔ LiveIn s used owner x
  busy : PartialBusy s used 0 → PartialBusy s₁ used₁ slab

lemma CacheChange.picked (h : KmemInv s used) (hc : CacheChange s used used' cache c c' slabs' pmm')
    (hstay : ∀ x ∈ c.slabs, x ∈ c'.slabs ∧ used' x = used x)
    (hnew : ∀ x ∈ c'.slabs, x ∉ c.slabs → used' x = ∅)
    (hframes : ∀ j, s.pmm.FrameFree j → pmm'.FrameFree j ∨ ∃ x ∈ c'.slabs, j ∈ c.geom.frames x)
    (hpart : slab ∈ c'.slabsPartial) (hrest : ∀ x ∈ c'.slabsPartial, x ≠ slab → x ∈ c.slabsPartial) :
    Picked cache slab s (s.change cache c' slabs' pmm') used used' := by
  refine ⟨hc.inv h, ⟨c', update_self .., hpart⟩,
    hc.grows (fun x hx => (hstay x hx).1) hframes, fun owner x => ?_, fun hb => ?_⟩
  on_goal 2 =>
    refine hc.partialBusy h hb (.inl rfl) fun hn x hx hne => ?_
    have hmem : x ∈ c.slabs := mem_slabs.mpr (.inl (hrest x hx hne))
    have hs : HasSlab s cache c x := ⟨hc.listed, hc.caches, hmem⟩
    have hpos := ((h.placed hs).lt (h.geom hs)).1
    rw [(hstay x hmem).2]
    exact hb cache c x hs hn (hrest x hx hne) (by omega)
  by_cases he : owner = cache
  · subst he
    rw [hc.liveIn_self]
    constructor
    · rintro ⟨slab, hmem, i, hi, hx⟩
      by_cases hold : slab ∈ c.slabs
      · rw [(hstay slab hold).2] at hi
        exact ⟨c, slab, i, ⟨hc.listed, hc.caches, hold⟩, hi, hx⟩
      rw [hnew slab hmem hold] at hi
      cases hi
    rintro ⟨c1, slab, i, hs, hi, hx⟩
    obtain rfl : c = c1 := some.inj (hc.caches.symm.trans hs.cache)
    exact ⟨slab, (hstay slab hs.slab).1, i, by rwa [(hstay slab hs.slab).2], hx⟩
  · exact hc.liveIn_of_ne h he

lemma KmemInv.freeToPartial (h : KmemInv s used) (hin : cache ∈ s.cacheList)
    (hc : s.caches cache = some c) (hfree : slab ∈ c.slabsFree) :
    Picked cache slab s (s.setCache cache ((c.listDel slab).addPartial slab)) used used := by
  have hok := h.cacheOk hin hc
  have hmem : slab ∈ c.slabs := mem_slabs.mpr (.inr (.inr hfree))
  obtain ⟨sl, hsl, hslab⟩ := hok.slab slab hmem
  have hdel := mem_listDel hok.nodup slab
  obtain ⟨hnodup, hiff⟩ := relist hok.nodup hmem (show ((c.listDel slab).addPartial slab).slabs.Perm _ from .refl _)
  have hcard : (used slab).card = 0 := by rw [hok.free slab hfree, card_empty]
  have hupd : CacheOk (update s.slabs slab (some sl))
      (update used slab (used slab)) cache ((c.listDel slab).addPartial slab) := by
    refine hok.update hmem rfl hnodup hiff hslab (fun x hx => ?_)
      (fun x hx => .inr ((hdel x).2.1.mp hx)) (fun x hx => .inr ((hdel x).2.2.mp hx)) rfl
    rcases mem_cons.mp hx with rfl | hx
    · exact .inl ⟨rfl, hcard ▸ hok.geom.objs_pos⟩
    · exact .inr ((hdel x).1.mp hx)
  rw [update_eq_self, ← hsl, update_eq_self] at hupd
  have hch : CacheChange s used used cache c ((c.listDel slab).addPartial slab) s.slabs s.pmm :=
    ⟨hin, hc, rfl, hupd, h.pmm, .refl _, fun _ _ _ => ⟨rfl, rfl⟩, fun x hx hn => absurd ((hiff x).mp hx) hn,
      fun _ hj => .inl hj, fun x hx i hi _ => ⟨(hiff x).mpr hx, hi⟩⟩
  exact hch.picked h (fun x hx => ⟨(hiff x).mpr hx, rfl⟩) (fun x hx hn => absurd ((hiff x).mp hx) hn)
    (fun _ hj => .inl hj) mem_cons_self
    fun x hx hne => ((hdel x).1.mp ((mem_cons.mp hx).resolve_left hne)).2

lemma slabCreate_spec (h : KmemInv s used) (hin : cache ∈ s.cacheList) (hc : s.caches cache = some c) :
    ((pmmAllocPages (c.slabSize / pageSize) s.pmm).1 = 0 ∧ ∃ pmm',
      slabCreate cache s = some (0, { s with pmm := pmm' }) ∧ pmm'.Inv ∧ s.pmm.SameLayout pmm' ∧
      ∀ j, pmm'.FrameFree j ↔ s.pmm.FrameFree j) ∨
    ∃ slab sl pmm' n m, slabCreate cache s = some (slab, Kmem.setCache cache
        { c with totalSlabs := n, totalObjects := m } (Kmem.setSlab slab sl { s with pmm := pmm' })) ∧
      SlabOk cache c.geom slab sl ∅ ∧ pmm'.Inv ∧ s.pmm.SameLayout pmm' ∧
      (∀ j ∈ c.geom.frames slab, s.pmm.FrameFree j) ∧
      ∀ j, pmm'.FrameFree j ↔ s.pmm.FrameFree j ∧ j ∉ c.geom.frames slab := by
  obtain ⟨hinv, hlayout, A, hA, hfree, hcase⟩ :=
    Pmm.pmmAllocPages_takes h.pmm (c.slabSize / pageSize)
  unfold slabCreate
  rw [hc]
  simp only [bind_eq_bind, bind_some]
  generalize pmmAllocPages (c.slabSize / pageSize) s.pmm = r at hinv hlayout hfree hcase ⊢
  obtain ⟨phys, pmm1⟩ := r
  dsimp only at hinv hlayout hfree hcase ⊢
  rcases hcase with ⟨rfl, hempty⟩ | ⟨f, rfl, hf0, hn, hlt, rfl⟩
  · refine .inl ⟨rfl, pmm1, by rw [if_pos rfl], hinv, hlayout, fun j => ?_⟩
    rcases hempty with rfl | h0
    · rw [hfree]
      simp
    · exact absurd (hA 0 h0) h.zero
  have hgeom := (h.cacheOk hin hc).geom
  have haddr : physToVirt (f * 4096) = frameAddr f := physToVirt_frame (by omega)
  have hplaced : c.geom.Placed (frameAddr f) := ⟨f, hf0, rfl, hlt⟩
  have hframes : c.geom.frames (frameAddr f) = Finset.Ico f (f + c.slabSize / pageSize) :=
    SlabGeom.frames_frameAddr c.geom f
  rw [if_neg (by omega), haddr]
  refine .inr ⟨frameAddr f, _, _, _, _, rfl, newSlab_ok hgeom hplaced, ?_, ?_, ?_, fun j => ?_⟩
  · exact (Pmm.sameFrames_markSlabPages _ _ pmm1).inv hinv
  · exact hlayout.trans (Pmm.sameFrames_markSlabPages _ _ pmm1).sameLayout
  · rwa [hframes]
  · rw [(Pmm.sameFrames_markSlabPages _ _ pmm1).frameFree, hfree, hframes]

lemma KmemInv.addSlab (h : KmemInv s used) (hin : cache ∈ s.cacheList) (hc : s.caches cache = some c) {m : ℕ}
    (hok : SlabOk cache c.geom slab sl ∅) (hinv : pmm'.Inv) (hlayout : s.pmm.SameLayout pmm')
    (hfresh : ∀ j ∈ c.geom.frames slab, s.pmm.FrameFree j)
    (hfree : ∀ j, pmm'.FrameFree j ↔ s.pmm.FrameFree j ∧ j ∉ c.geom.frames slab) :
    Picked cache slab s (s.change cache
      (addPartial slab { c with totalSlabs := n, totalObjects := m })
      (update s.slabs slab (some sl)) pmm') used (update used slab ∅) := by
  have hcache := h.cacheOk hin hc
  have hnew : slab ∉ c.slabs := fun hmem =>
    h.taken _ _ _ ⟨hin, hc, hmem⟩ _ (SlabGeom.first_mem_frames hcache.geom)
      (hfresh _ (SlabGeom.first_mem_frames hcache.geom))
  have hne : ∀ x ∈ c.slabs, x ≠ slab := fun x hx he => hnew (he ▸ hx)
  have hmem : ∀ x, x ∈ (addPartial slab { c with
      totalSlabs := n, totalObjects := m }).slabs ↔ x = slab ∨ x ∈ c.slabs := fun x => mem_cons
  have honly : ∀ x ∈ (addPartial slab { c with
      totalSlabs := n, totalObjects := m }).slabs, x ∉ c.slabs → x = slab :=
    fun x hx hn => ((hmem x).mp hx).resolve_right hn
  have hch : CacheChange s used (update used slab ∅) cache c
      (addPartial slab { c with totalSlabs := n, totalObjects := m })
      (update s.slabs slab (some sl)) pmm' := by
    refine ⟨hin, hc, rfl, hcache.add hnew hok n m, hinv, hlayout, ?_, ?_, ?_, ?_⟩
    · intro x _ hx
      have hx' : x ≠ slab := fun he => hx ((hmem x).mpr (.inl he))
      exact ⟨update_of_ne hx' .., update_of_ne hx' ..⟩
    · intro x hx hn
      obtain rfl := honly x hx hn
      exact ⟨fun j hj => ⟨hfresh j hj, fun hf => ((hfree j).mp hf).2 hj⟩, fun y hy hyn => honly y hy hyn⟩
    · exact fun j hf => .inl ((hfree j).mp hf).1
    · exact fun x hx i hi _ => ⟨(hmem x).mpr (.inr hx), by rwa [update_of_ne (hne x hx)]⟩
  refine hch.picked h (fun x hx => ⟨(hmem x).mpr (.inr hx), update_of_ne (hne x hx) ..⟩)
    (fun x hx hn => ?_) (fun j hj => ?_) mem_cons_self
    fun x hx hn => (mem_cons.mp hx).resolve_left hn
  · rw [honly x hx hn, update_self]
  by_cases hmem' : j ∈ c.geom.frames slab
  · exact .inr ⟨slab, (hmem slab).mpr (.inl rfl), hmem'⟩
  · exact .inl ((hfree j).mpr ⟨hj, hmem'⟩)

lemma Picked.hasSlab {used1 : ℕ → Finset ℕ} (hin : cache ∈ s.cacheList) (hp : Picked cache slab s s₁ used used1) :
    ∃ c1, HasSlab s₁ cache c1 slab ∧ slab ∈ c1.slabsPartial := by
  obtain ⟨c1, hc1, hpart⟩ := hp.partial_mem
  exact ⟨c1, ⟨hp.grows.cacheList ▸ hin, hc1, mem_slabs.mpr (.inl hpart)⟩, hpart⟩

lemma pickSlab_spec (h : KmemInv s used) (hin : cache ∈ s.cacheList) :
    (NoPages cache s ∧ ∃ pmm', pickSlab cache s = some (0, { s with pmm := pmm' }) ∧ pmm'.Inv ∧
      s.pmm.SameLayout pmm' ∧ ∀ j, pmm'.FrameFree j ↔ s.pmm.FrameFree j) ∨
    ∃ slab s₁ used1, pickSlab cache s = some (slab, s₁) ∧ Picked cache slab s s₁ used used1 := by
  obtain ⟨c, hc, hok⟩ := h.cache cache hin
  unfold pickSlab
  rw [hc]
  simp only [bind_eq_bind, bind_some]
  cases hpart : c.slabsPartial with
  | cons slab rest =>
    refine .inr ⟨slab, s, used, rfl, h, ⟨c, hc, ?_⟩, .refl _ s, fun _ _ => .rfl, fun hb => ?_⟩
    · rw [hpart]
      exact mem_cons_self
    intro cache1 c1 x hs hn hx _
    have hpos := ((h.placed hs).lt (h.geom hs)).1
    exact hb cache1 c1 x hs hn hx (by omega)
  | nil =>
    dsimp only
    cases hfree : c.slabsFree with
    | cons slab rest =>
      exact .inr ⟨slab, _, used, rfl, h.freeToPartial hin hc (hfree ▸ mem_cons_self)⟩
    | nil =>
      dsimp only
      rcases slabCreate_spec h hin hc with ⟨h0, pmm', hcr, hinv, hlayout, hframes⟩ |
        ⟨slab, sl, pmm', n, m, hcr, hslab, hinv, hlayout, hfresh, hframes⟩
      · exact .inl ⟨⟨c, hc, hpart, hfree, h0⟩, pmm', by rw [hcr]; rfl, hinv, hlayout, hframes⟩
      have hpicked := h.addSlab (n := n) (m := m) hin hc hslab hinv hlayout hfresh hframes
      have hpos := (hslab.placed.lt hok.geom).1
      refine .inr ⟨slab, _, _, ?_, hpicked⟩
      rw [hcr, bind_some, if_neg (by omega)]
      simp only [Kmem.setCache, Kmem.setSlab, Kmem.change, update_self, bind_some, update_idem]

lemma KmemInv.active_lt (h : KmemInv s used) (hin : cache ∈ s.cacheList)
    (hc : s.caches cache = some c) : c.activeObjects + 1 < 2 ^ 64 := by
  have hok := h.cacheOk hin hc
  have hslab : ∀ x ∈ c.slabs, HasSlab s cache c x := fun x hx => ⟨hin, hc, hx⟩
  have hcard : (c.slabs.toFinset.sigma used).card ≤ (Finset.Ico 48 (2 ^ 64)).card := by
    refine card_le_card_of_injOn (fun p => c.geom.addr p.1 p.2) ?_ ?_
    · rintro ⟨x, i⟩ hp
      obtain ⟨hx, hi⟩ := mem_sigma.mp hp
      have hs := hslab x (mem_toFinset.mp hx)
      have hlt : i < c.objectsPerSlab := h.used_lt hs hi
      have hb := SlabGeom.addr_bounds x hok.geom hlt
      have hpos := hok.geom.aligned_pos
      have hend := ((h.placed hs).lt hok.geom).2
      have h48 : sizeofSlab = 48 := rfl
      simp only [coe_Ico, Set.mem_Ico]
      omega
    rintro ⟨x, i⟩ hp ⟨y, j⟩ hq he
    obtain ⟨hx, hi⟩ := mem_sigma.mp hp
    obtain ⟨hy, hj⟩ := mem_sigma.mp hq
    have hsx := hslab x (mem_toFinset.mp hx)
    have hsy := hslab y (mem_toFinset.mp hy)
    obtain ⟨rfl, rfl⟩ := h.addr_inj hsx hsy (h.used_lt hsx hi) (h.used_lt hsy hj) he
    rfl
  rw [card_sigma, ← hok.active, Nat.card_Ico] at hcard
  omega

lemma SlabOk.take {U : Finset ℕ} (h : SlabOk cache g slab sl U) (hg : g.Ok) (hlt : U.card < g.objectsPerSlab) :
    sl.freeIdx ≠ uint32Max ∧ sl.freeIdx < g.objectsPerSlab ∧ sl.freeIdx ∉ U ∧
      SlabOk cache g slab { sl with freeIdx := sl.links sl.freeIdx, inuse := u32 (sl.inuse + 1) }
        (insert sl.freeIdx U) := by
  have hne : sl.freeIdx ≠ uint32Max := fun he => by
    have := h.free.eq_stop_iff.mp he
    omega
  obtain ⟨hidx, hfree, hlist⟩ := h.free.pop hne
  have hinuse : u32 (sl.inuse + 1) = (insert sl.freeIdx U).card := by
    have := hg.objs_lt
    rw [card_insert_of_notMem hfree, h.inuse, u32_of_lt (by omega)]
  exact ⟨hne, hidx, hfree, h.placed, h.base, h.freelist, h.cache, hlist, hinuse⟩

lemma CacheOk.take {slabs : ℕ → Option Slab}
    (h : CacheOk slabs used cache c) (hpart : slab ∈ c.slabsPartial) (hi : i ∉ used slab)
    (hok : SlabOk cache c.geom slab sl (insert i (used slab)))
    (hc' : c' = if sl.inuse = c.objectsPerSlab then
        (listDel slab { c with activeObjects := c.activeObjects + 1 }).addFull slab
      else { c with activeObjects := c.activeObjects + 1 }) :
    c'.geom = c.geom ∧ (∀ x, x ∈ c'.slabs ↔ x ∈ c.slabs) ∧ (∀ x ∈ c'.slabsPartial, x ∈ c.slabsPartial) ∧
      CacheOk (Function.update slabs slab (some sl))
        (Function.update used slab (insert i (used slab))) cache c' := by
  have hmem : slab ∈ c.slabs := mem_slabs.mpr (.inl hpart)
  have hcard := card_insert_of_notMem hi
  have hlt := h.part slab hpart
  have hlists := (nodup_append'.mp h.nodup).2.2
  have hnot : slab ∉ c.slabsFull ∧ slab ∉ c.slabsFree := by
    have := disjoint_left.mp hlists hpart
    simpa [mem_append, not_or] using this
  have hactive : c.activeObjects + 1 + (used slab).card =
      c.activeObjects + (insert i (used slab)).card := by omega
  split_ifs at hc' with hfull
  · subst hc'
    have hdel := mem_listDel h.nodup slab
    obtain ⟨hnodup, hiff⟩ := relist h.nodup hmem
      (show ((listDel slab { c with activeObjects := c.activeObjects + 1 }).addFull
        slab).slabs.Perm (slab :: (c.listDel slab).slabs) from perm_middle)
    refine ⟨rfl, hiff, fun x hx => ((hdel x).1.mp hx).2,
      h.update hmem rfl hnodup hiff hok (fun x hx => .inr ((hdel x).1.mp hx))
      (fun x hx => ?_) (fun x hx => .inr ((hdel x).2.2.mp hx)) hactive⟩
    rcases mem_cons.mp hx with rfl | hx
    · exact .inl ⟨rfl, hok.inuse.symm.trans hfull⟩
    · exact .inr ((hdel x).2.1.mp hx)
  subst hc'
  have hne : (insert i (used slab)).card ≠ c.objectsPerSlab := fun he => hfull (hok.inuse.trans he)
  refine ⟨rfl, fun x => .rfl, fun _ hx => hx, h.update hmem rfl h.nodup (fun x => .rfl) hok (fun x hx => ?_)
    (fun x hx => .inr ⟨fun he => hnot.1 (he ▸ hx), hx⟩)
    (fun x hx => .inr ⟨fun he => hnot.2 (he ▸ hx), hx⟩) hactive⟩
  by_cases he : x = slab
  · exact .inl ⟨he, by omega⟩
  · exact .inr ⟨he, hx⟩

/-- The object `obj` of `cache` is given out. -/
structure Given (cache obj busy : ℕ) (s : Kmem) (used : ℕ → Finset ℕ) (s' : Kmem) (used' : ℕ → Finset ℕ) :
    Prop where
  grows : Grows (fun x => x = cache) s s'
  busy : PartialBusy s used busy → PartialBusy s' used' 0
  inv : KmemInv s' used'
  fresh : ∀ owner, ¬ LiveIn s used owner obj
  live : ∀ owner x, LiveIn s' used' owner x ↔ LiveIn s used owner x ∨ (owner = cache ∧ x = obj)

lemma KmemInv.takeObj (h : KmemInv s used) (hin : cache ∈ s.cacheList) (hc : s.caches cache = some c)
    (hmem : slab ∈ c.slabs) (hlt : i < c.objectsPerSlab) (hi : i ∉ used slab)
    (hgeom : c'.geom = c.geom) (hiff : ∀ x, x ∈ c'.slabs ↔ x ∈ c.slabs)
    (hok : CacheOk (update s.slabs slab (some sl)) (update used slab (insert i (used slab))) cache c')
    (hpart : ∀ x ∈ c'.slabsPartial, x ∈ c.slabsPartial) :
    Given cache (c.geom.addr slab i) slab s used (s.change cache c' (update s.slabs slab (some sl)) s.pmm)
      (update used slab (insert i (used slab))) := by
  have hslab : ∀ x ∈ c.slabs, HasSlab s cache c x := fun x hx => ⟨hin, hc, hx⟩
  have hmono : ∀ x, used x ⊆ update used slab (insert i (used slab)) x := by
    intro x
    by_cases he : x = slab
    · subst he
      rw [update_self]
      exact subset_insert _ _
    · rw [update_of_ne he]
  have hch : CacheChange s used (update used slab (insert i (used slab))) cache c c'
      (update s.slabs slab (some sl)) s.pmm := by
    refine ⟨hin, hc, hgeom, hok, h.pmm, .refl _, fun x hx _ => ?_,
      fun x hx hn => absurd ((hiff x).mp hx) hn, fun _ hj => .inl hj,
      fun x hx j hj _ => ⟨(hiff x).mpr hx, hmono x hj⟩⟩
    have hne : x ≠ slab := fun he => hx (he ▸ hmem)
    exact ⟨update_of_ne hne .., update_of_ne hne ..⟩
  refine ⟨hch.grows (fun x hx => (hiff x).mpr hx) (fun _ hj => .inl hj), fun hb => ?_, hch.inv h, ?_, ?_⟩
  · refine hch.partialBusy h hb (.inr hmem) fun hn x hx _ => ?_
    by_cases he : x = slab
    · rw [he, update_self]
      exact insert_ne_empty _ _
    rw [update_of_ne he]
    exact hb cache c x ⟨hin, hc, mem_slabs.mpr (.inl (hpart x hx))⟩ hn (hpart x hx) he
  · rintro owner ⟨c1, x, j, hs, hj, he⟩
    obtain ⟨rfl, rfl⟩ := h.addr_inj (hslab slab hmem) hs hlt (h.used_lt hs hj) he
    exact hi hj
  intro owner x
  by_cases howner : owner = cache
  · subst howner
    rw [hch.liveIn_self]
    constructor
    · rintro ⟨y, hy, j, hj, rfl⟩
      by_cases he : y = slab
      · subst he
        rw [update_self] at hj
        rcases mem_insert.mp hj with rfl | hj
        · exact .inr ⟨rfl, rfl⟩
        · exact .inl ⟨c, y, j, hslab y hmem, hj, rfl⟩
      rw [update_of_ne he] at hj
      exact .inl ⟨c, y, j, hslab y ((hiff y).mp hy), hj, rfl⟩
    rintro (⟨c1, y, j, hs, hj, rfl⟩ | ⟨-, rfl⟩)
    · obtain rfl : c = c1 := some.inj (hc.symm.trans hs.cache)
      exact ⟨y, (hiff y).mpr hs.slab, j, hmono y hj, rfl⟩
    · exact ⟨slab, (hiff slab).mpr hmem, i, by simp, rfl⟩
  rw [hch.liveIn_of_ne h howner]
  simp [howner]

lemma takeFromSlab_spec (h : KmemInv s used) (hs : HasSlab s cache c slab)
    (hpart : slab ∈ c.slabsPartial) : ∃ obj s' used', takeFromSlab cache slab s = some (obj, s') ∧
      Given cache obj slab s used s' used' := by
  have hok := h.cacheOk hs.listed hs.cache
  obtain ⟨sl, hsl, hslab⟩ := hok.slab slab hs.slab
  obtain ⟨hne, hidx, hfree, htake⟩ := hslab.take hok.geom (hok.part slab hpart)
  obtain ⟨hgeom, hiff, hpart', hcache⟩ := hok.take hpart hfree htake rfl
  have hwrap : u64 (c.activeObjects + 1) = c.activeObjects + 1 :=
    u64_of_lt (h.active_lt hs.listed hs.cache)
  have hobj : u64 (sl.base + sl.freeIdx * c.alignedSize) = c.geom.addr slab sl.freeIdx := by
    have hb := SlabGeom.addr_bounds slab hok.geom hidx
    have hlt := ((h.placed hs).lt hok.geom).2
    have hpos := hok.geom.aligned_pos
    rw [hslab.base]
    exact u64_of_lt (show c.geom.addr slab sl.freeIdx < 2 ^ 64 by omega)
  have htook := h.takeObj hs.listed hs.cache hs.slab hidx hfree hgeom hiff hcache hpart'
  refine ⟨c.geom.addr slab sl.freeIdx, _, _, ?_, htook⟩
  unfold takeFromSlab slabAllocObj
  simp only [bind_eq_bind, hsl, bind_some, if_neg hne, hslab.cache, hs.cache, hobj,
    Kmem.setSlab, update_self, hwrap, Kmem.setCache, Kmem.change]
  split_ifs <;> rfl

/-- **`kmem_cache_alloc`** returns an object that was not in use, or `NULL` when there are no pages for
a new slab. -/
theorem kmemCacheAlloc_spec (h : KmemInv s used) (hin : cache ∈ s.cacheList) :
    ∃ obj s' used', kmemCacheAlloc cache s = some (obj, s') ∧ Grows (fun x => x = cache) s s' ∧
      (PartialBusy s used 0 → PartialBusy s' used' 0) ∧ KmemInv s' used' ∧ ((obj = 0 ∧ NoPages cache s ∧
          ∀ owner x, LiveIn s' used' owner x ↔ LiveIn s used owner x) ∨
        ((∀ owner, ¬ LiveIn s used owner obj) ∧ ∀ owner x, LiveIn s' used' owner x ↔
          LiveIn s used owner x ∨ (owner = cache ∧ x = obj))) := by
  unfold kmemCacheAlloc
  rcases pickSlab_spec h hin with ⟨hno, pmm', hpick, hinv, hlayout, hframes⟩ | ⟨slab, s₁, used1, hpick, hp⟩
  · rw [hpick]
    exact ⟨0, _, used, rfl, .setPmm s.sizes hframes,
      fun hb cache1 c1 x hs => hb cache1 c1 x ⟨hs.listed, hs.cache, hs.slab⟩,
      h.setPmm s.sizes hinv hlayout fun j hj => (hframes j).mp hj, .inl ⟨rfl, hno, liveIn_setPmm⟩⟩
  obtain ⟨c1, hs1, hpart⟩ := hp.hasSlab hin
  have hpos := ((hp.inv.placed hs1).lt (hp.inv.geom hs1)).1
  obtain ⟨obj, s', used', hrun, hgrow, hbusy, hinv, hfresh, hlive⟩ :=
    takeFromSlab_spec hp.inv hs1 hpart
  refine ⟨obj, s', used', ?_, hp.grows.trans hgrow, fun hb => hbusy (hp.busy hb), hinv, .inr ⟨fun owner hl => ?_, fun owner x => ?_⟩⟩
  · rw [hpick]
    simp only [bind_eq_bind, bind_some, if_neg (show slab ≠ 0 by omega)]
    exact hrun
  · exact hfresh owner ((hp.live owner obj).mpr hl)
  · rw [hlive, hp.live]

end Alloc

end Obelisk
