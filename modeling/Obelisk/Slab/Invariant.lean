import Obelisk.Slab.Frames

/-!
# The invariant of the kernel heap

Beside the state there is the set `used slab` of the objects of each slab that are in use.
-/

namespace Obelisk

open KLib Function Finset

variable {cache1 : ℕ} {c1 : KmemCache}
variable {j x : ℕ}

/-- How a slab is divided. -/
structure SlabGeom where
  alignedSize : ℕ
  objectsPerSlab : ℕ
  slabSize : ℕ

def KmemCache.geom (c : KmemCache) : SlabGeom := ⟨c.alignedSize, c.objectsPerSlab, c.slabSize⟩

namespace SlabGeom

/-- The objects and the free list fit. -/
structure Ok (g : SlabGeom) : Prop where
  aligned_pos : 0 < g.alignedSize
  objs_pos : 0 < g.objectsPerSlab
  objs_lt : g.objectsPerSlab < 2 ^ 32
  fit : sizeofSlab + g.objectsPerSlab * (g.alignedSize + 4) ≤ g.slabSize
  pages : g.slabSize % 4096 = 0

def addr (g : SlabGeom) (slab i : ℕ) : ℕ := slab + sizeofSlab + i * g.alignedSize

def frames (g : SlabGeom) (slab : ℕ) : Finset ℕ :=
  Ico ((slab - kernelPhysMapBase) / 4096) ((slab - kernelPhysMapBase) / 4096 + g.slabSize / 4096)

def Placed (g : SlabGeom) (slab : ℕ) : Prop :=
  ∃ f, f ≠ 0 ∧ slab = frameAddr f ∧ f + g.slabSize / 4096 ≤ 2 ^ 20

variable {g g' : SlabGeom} {slab slab' i j x : ℕ}

lemma frames_frameAddr (g : SlabGeom) (f : ℕ) :
    g.frames (frameAddr f) = Ico f (f + g.slabSize / 4096) := by
  rw [frames, frameAddr, Nat.add_sub_cancel_left, Nat.mul_div_cancel _ (by norm_num)]

lemma first_mem_frames (h : g.Ok) : (slab - kernelPhysMapBase) / 4096 ∈ g.frames slab := by
  have hfit := h.fit
  have hpages := h.pages
  rw [sizeofSlab] at hfit
  rw [frames, mem_Ico]
  omega

lemma addr_inj (h : g.Ok) (he : g.addr slab i = g.addr slab j) : i = j := by
  rw [addr, addr] at he
  exact Nat.eq_of_mul_eq_mul_right h.aligned_pos (add_left_cancel he)

lemma addr_bounds (slab : ℕ) (h : g.Ok) (hi : i < g.objectsPerSlab) : slab + sizeofSlab ≤ g.addr slab i ∧
      g.addr slab i + g.alignedSize ≤ slab + sizeofSlab + g.objectsPerSlab * g.alignedSize ∧
      slab + sizeofSlab + g.objectsPerSlab * g.alignedSize + g.objectsPerSlab * 4 ≤
        slab + g.slabSize := by
  have hfit := h.fit
  have hmul : (i + 1) * g.alignedSize ≤ g.objectsPerSlab * g.alignedSize :=
    Nat.mul_le_mul_right _ hi
  rw [add_mul, one_mul] at hmul
  rw [mul_add] at hfit
  rw [addr]
  omega

lemma Placed.lt (h : g.Ok) (hp : g.Placed slab) : 0 < slab ∧ slab + g.slabSize < 2 ^ 64 := by
  obtain ⟨f, -, rfl, hf⟩ := hp
  have := h.pages
  rw [frameAddr, kernelPhysMapBase]
  omega

lemma Placed.disjoint (hg : g.Ok) (hg' : g'.Ok) (h : g.Placed slab) (h' : g'.Placed slab')
    (hd : Disjoint (g.frames slab) (g'.frames slab')) (h1 : slab ≤ x) (h2 : x < slab + g.slabSize) :
    ¬ (slab' ≤ x ∧ x < slab' + g'.slabSize) := by
  obtain ⟨f, -, rfl, -⟩ := h
  obtain ⟨f', -, rfl, -⟩ := h'
  rintro ⟨h3, h4⟩
  have hs := hg.pages
  have hs' := hg'.pages
  rw [frames_frameAddr, frames_frameAddr] at hd
  rw [frameAddr] at h1 h2 h3 h4
  have hx : (x - kernelPhysMapBase) / 4096 ∈ Ico f (f + g.slabSize / 4096) :=
    mem_Ico.mpr (by omega)
  exact disjoint_left.mp hd hx (mem_Ico.mpr (by omega))

end SlabGeom

/-! ## Slabs and caches -/

/-- The objects `used` of a slab are in use. -/
structure SlabOk (cache : ℕ) (g : SlabGeom) (slab : ℕ) (sl : Slab) (used : Finset ℕ) : Prop where
  placed : g.Placed slab
  base : sl.base = slab + sizeofSlab
  freelist : sl.freelist = slab + sizeofSlab + g.objectsPerSlab * g.alignedSize
  cache : sl.cache = cache
  free : IsFreeList sl.links uint32Max sl.freeIdx g.objectsPerSlab used
  inuse : sl.inuse = used.card

def KmemCache.slabs (c : KmemCache) : List ℕ := c.slabsPartial ++ (c.slabsFull ++ c.slabsFree)

/-- The slabs of a cache are on the list they belong to. -/
structure CacheOk (slabs : ℕ → Option Slab) (used : ℕ → Finset ℕ) (cache : ℕ) (c : KmemCache) :
    Prop where
  geom : c.geom.Ok
  nodup : c.slabs.Nodup
  slab : ∀ slab ∈ c.slabs, ∃ sl, slabs slab = some sl ∧ SlabOk cache c.geom slab sl (used slab)
  part : ∀ slab ∈ c.slabsPartial, (used slab).card < c.objectsPerSlab
  full : ∀ slab ∈ c.slabsFull, (used slab).card = c.objectsPerSlab
  free : ∀ slab ∈ c.slabsFree, used slab = ∅
  active : c.activeObjects = ∑ slab ∈ c.slabs.toFinset, (used slab).card

/-- The slab belongs to a cache of the system. -/
structure HasSlab (s : Kmem) (cache : ℕ) (c : KmemCache) (slab : ℕ) : Prop where
  listed : cache ∈ s.cacheList
  cache : s.caches cache = some c
  slab : slab ∈ c.slabs

def LiveIn (s : Kmem) (used : ℕ → Finset ℕ) (cache x : ℕ) : Prop :=
  ∃ c slab i, HasSlab s cache c slab ∧ i ∈ used slab ∧ x = c.geom.addr slab i

def SlabFrame (s : Kmem) (j : ℕ) : Prop :=
  ∃ cache c slab, HasSlab s cache c slab ∧ j ∈ c.geom.frames slab

/-- The early heap is the 256 frames from `e` on. -/
structure EarlyOk (s : Kmem) (e : ℕ) : Prop where
  start : s.earlyHeapStart = frameAddr e
  stop : s.earlyHeapEnd = frameAddr (e + 256)
  lt : e + 256 ≤ 2 ^ 20
  start_le : s.earlyHeapStart ≤ s.earlyHeapCurrent
  le_stop : s.earlyHeapCurrent ≤ s.earlyHeapEnd
  taken : ∀ j ∈ Ico e (e + 256), ¬ s.pmm.FrameFree j
  apart : ∀ cache c slab, HasSlab s cache c slab → Disjoint (c.geom.frames slab) (Ico e (e + 256))

/-- The invariant of the heap; `used` gives the objects in use of each slab. -/
structure KmemInv (s : Kmem) (used : ℕ → Finset ℕ) : Prop where
  pmm : s.pmm.Inv
  zero : ¬ s.pmm.FrameFree 0
  ne_zero : 0 ∉ s.cacheList
  cache : ∀ cache ∈ s.cacheList, ∃ c, s.caches cache = some c ∧ CacheOk s.slabs used cache c
  apart : ∀ cache c slab cache' c' slab', HasSlab s cache c slab → HasSlab s cache' c' slab' →
    slab ≠ slab' → Disjoint (c.geom.frames slab) (c'.geom.frames slab')
  taken : ∀ cache c slab, HasSlab s cache c slab → ∀ j ∈ c.geom.frames slab, ¬ s.pmm.FrameFree j
  managed : ∀ cache c slab, HasSlab s cache c slab → ∀ j ∈ c.geom.frames slab, s.pmm.Managed j
  early : ∃ e, EarlyOk s e
  home : ∀ cache ∈ s.cacheList, (s.earlyHeapStart ≤ cache ∧ cache < s.earlyHeapCurrent) ∨
    ∃ owner, LiveIn s used owner cache
  sizeCaches : s.slabInitialized = true → ∀ i < sizeClasses.length, s.sizeCaches i ∈ s.cacheList

/-- The partial slabs have objects in use, except for `slab₀` and for caches with one object in a
slab. -/
def PartialBusy (s : Kmem) (used : ℕ → Finset ℕ) (slab₀ : ℕ) : Prop :=
  ∀ cache c slab, HasSlab s cache c slab → c.objectsPerSlab ≠ 1 → slab ∈ c.slabsPartial →
    slab ≠ slab₀ → used slab ≠ ∅

section Inv

variable {s : Kmem} {used : ℕ → Finset ℕ} {cache cache' slab slab' i i' : ℕ} {c c' : KmemCache}

section

variable (h : KmemInv s used)
include h

lemma KmemInv.cacheOk (hin : cache ∈ s.cacheList)
    (hc : s.caches cache = some c) : CacheOk s.slabs used cache c := by
  obtain ⟨c', hc', hok⟩ := h.cache cache hin
  rw [hc] at hc'
  cases hc'
  exact hok

section

variable (hs : HasSlab s cache c slab)
include hs

lemma KmemInv.slabOk :
    ∃ sl, s.slabs slab = some sl ∧ SlabOk cache c.geom slab sl (used slab) :=
  (h.cacheOk hs.listed hs.cache).slab slab hs.slab

lemma KmemInv.geom : c.geom.Ok :=
  (h.cacheOk hs.listed hs.cache).geom

lemma KmemInv.placed : c.geom.Placed slab := by
  obtain ⟨sl, -, hok⟩ := h.slabOk hs
  exact hok.placed

lemma KmemInv.used_lt (hi : i ∈ used slab) :
    i < c.objectsPerSlab := by
  obtain ⟨sl, -, hok⟩ := h.slabOk hs
  exact hok.free.used_lt i hi

lemma KmemInv.same_cache
    (hs' : HasSlab s cache' c' slab) : cache = cache' ∧ c = c' := by
  obtain ⟨sl, hsl, hok⟩ := h.slabOk hs
  obtain ⟨sl', hsl', hok'⟩ := h.slabOk hs'
  rw [hsl] at hsl'
  cases hsl'
  obtain rfl : cache = cache' := hok.cache.symm.trans hok'.cache
  have hc := hs.cache
  rw [hs'.cache] at hc
  cases hc
  exact ⟨rfl, rfl⟩

lemma KmemInv.not_in
    (hs' : HasSlab s cache' c' slab') (hne : slab ≠ slab') (hi : i < c.objectsPerSlab) :
    ¬ (slab' ≤ c.geom.addr slab i ∧ c.geom.addr slab i < slab' + c'.geom.slabSize) := by
  have hb := SlabGeom.addr_bounds slab (h.geom hs) hi
  have hpos := (h.geom hs).aligned_pos
  exact (h.placed hs).disjoint (h.geom hs) (h.geom hs') (h.placed hs')
    (h.apart _ _ _ _ _ _ hs hs' hne) (by omega) (by omega)

lemma KmemInv.addr_inj
    (hs' : HasSlab s cache' c' slab') (hi : i < c.objectsPerSlab) (hi' : i' < c'.objectsPerSlab)
    (he : c.geom.addr slab i = c'.geom.addr slab' i') : slab = slab' ∧ i = i' := by
  by_cases hne : slab = slab'
  · subst hne
    obtain ⟨-, rfl⟩ := h.same_cache hs hs'
    exact ⟨rfl, SlabGeom.addr_inj (h.geom hs) he⟩
  have hb := SlabGeom.addr_bounds slab' (h.geom hs') hi'
  have hpos := (h.geom hs').aligned_pos
  have hnot := h.not_in hs hs' hne hi
  rw [he] at hnot
  exact absurd ⟨by omega, by omega⟩ hnot

lemma KmemInv.liveIn_iff
    (hi : i < c.objectsPerSlab) : LiveIn s used cache (c.geom.addr slab i) ↔ i ∈ used slab := by
  constructor
  · rintro ⟨c', slab', i', hs', hi', he⟩
    obtain ⟨rfl, rfl⟩ := h.addr_inj hs hs' hi (h.used_lt hs' hi') he
    exact hi'
  · exact fun hu => ⟨c, slab, i, hs, hu, rfl⟩

end

lemma KmemInv.liveIn_unique (hx : LiveIn s used cache x)
    (hx' : LiveIn s used cache' x) : cache = cache' := by
  obtain ⟨c, slab, i, hs, hi, rfl⟩ := hx
  obtain ⟨c', slab', i', hs', hi', he⟩ := hx'
  obtain ⟨rfl, -⟩ := h.addr_inj hs hs' (h.used_lt hs hi) (h.used_lt hs' hi') he
  exact (h.same_cache hs hs').1

end

/-! ## Changes to one cache -/

/-- The cache `c` becomes `c'`: at most one slab is new, on frames that were free, and slabs that are
given up may return their frames. -/
structure CacheChange (s : Kmem) (used used' : ℕ → Finset ℕ) (cache : ℕ) (c c' : KmemCache)
    (slabs' : ℕ → Option Slab) (pmm' : Pmm) : Prop where
  listed : cache ∈ s.cacheList
  caches : s.caches cache = some c
  geom : c'.geom = c.geom
  ok : CacheOk slabs' used' cache c'
  pmm : pmm'.Inv
  layout : s.pmm.SameLayout pmm'
  other : ∀ slab, slab ∉ c.slabs → slab ∉ c'.slabs → slabs' slab = s.slabs slab ∧ used' slab = used slab
  fresh : ∀ slab ∈ c'.slabs, slab ∉ c.slabs → (∀ j ∈ c.geom.frames slab, s.pmm.FrameFree j ∧ ¬ pmm'.FrameFree j) ∧
      ∀ slab' ∈ c'.slabs, slab' ∉ c.slabs → slab' = slab
  gone : ∀ j, pmm'.FrameFree j → s.pmm.FrameFree j ∨ ∃ slab ∈ c.slabs, slab ∉ c'.slabs ∧ j ∈ c.geom.frames slab
  keep : ∀ slab ∈ c.slabs, ∀ i ∈ used slab, c.geom.addr slab i ∈ s.cacheList → slab ∈ c'.slabs ∧ i ∈ used' slab

def Kmem.change (s : Kmem) (cache : ℕ) (c' : KmemCache) (slabs' : ℕ → Option Slab) (pmm' : Pmm) :
    Kmem :=
  { s with pmm := pmm', slabs := slabs', caches := update s.caches cache (some c') }

section Change

variable {used' : ℕ → Finset ℕ} {slabs' : ℕ → Option Slab} {pmm' : Pmm}
  (h : KmemInv s used) (hc : CacheChange s used used' cache c c' slabs' pmm')
include h hc

omit h in
lemma CacheChange.hasSlab (hs : HasSlab (s.change cache c' slabs' pmm') cache1 c1 slab) :
    (cache1 = cache ∧ c1 = c' ∧ slab ∈ c'.slabs) ∨ (cache1 ≠ cache ∧ HasSlab s cache1 c1 slab) := by
  have hcache : update s.caches cache (some c') cache1 = some c1 := hs.cache
  by_cases he : cache1 = cache
  · subst he
    rw [update_self] at hcache
    cases hcache
    exact .inl ⟨rfl, rfl, hs.slab⟩
  rw [update_of_ne he] at hcache
  exact .inr ⟨he, hs.listed, hcache, hs.slab⟩

omit h in
lemma CacheChange.hasSlab_self (hs : slab ∈ c'.slabs) :
    HasSlab (s.change cache c' slabs' pmm') cache c' slab :=
  ⟨hc.listed, update_self .., hs⟩

omit h hc in
lemma hasSlab_change_of_ne (hne : cache1 ≠ cache)
    (hs : HasSlab s cache1 c1 slab) : HasSlab (s.change cache c' slabs' pmm') cache1 c1 slab :=
  ⟨hs.listed, (update_of_ne hne ..).trans hs.cache, hs.slab⟩

lemma CacheChange.untouched (hne : cache1 ≠ cache)
    (hs : HasSlab s cache1 c1 slab) : slab ∉ c.slabs ∧ slab ∉ c'.slabs := by
  have hnot : slab ∉ c.slabs := fun hmem =>
    hne (h.same_cache hs ⟨hc.listed, hc.caches, hmem⟩).1
  refine ⟨hnot, fun hmem => ?_⟩
  have hgeom := (h.cacheOk hc.listed hc.caches).geom
  have hfree := ((hc.fresh slab hmem hnot).1 _ (SlabGeom.first_mem_frames hgeom)).1
  exact h.taken _ _ _ hs _ (SlabGeom.first_mem_frames (h.geom hs)) hfree

section

variable (hs : HasSlab s cache1 c1 slab)
include hs

lemma CacheChange.still_taken (hstay : slab ∈ c.slabs → slab ∈ c'.slabs) (hj : j ∈ c1.geom.frames slab) :
    ¬ pmm'.FrameFree j := by
  intro hf
  rcases hc.gone j hf with hf | ⟨slab', hmem, hgone, hj'⟩
  · exact h.taken _ _ _ hs j hj hf
  have hs' : HasSlab s cache c slab' := ⟨hc.listed, hc.caches, hmem⟩
  have hne : slab ≠ slab' := by
    rintro rfl
    exact hgone (hstay hmem)
  exact disjoint_left.mp (h.apart _ _ _ _ _ _ hs hs' hne) hj hj'

lemma CacheChange.fresh_apart (hs' : slab' ∈ c'.slabs) (hnew : slab' ∉ c.slabs) :
    Disjoint (c1.geom.frames slab) (c.geom.frames slab') :=
  disjoint_left.mpr fun j hj hj' =>
    h.taken _ _ _ hs j hj ((hc.fresh slab' hs' hnew).1 j hj').1

lemma CacheChange.apart_self (hs' : slab' ∈ c'.slabs) (hne : slab ≠ slab') :
    Disjoint (c1.geom.frames slab) (c'.geom.frames slab') := by
  rw [hc.geom]
  by_cases hold : slab' ∈ c.slabs
  · exact h.apart _ _ _ _ _ _ hs ⟨hc.listed, hc.caches, hold⟩ hne
  · exact hc.fresh_apart h hs hs' hold

end

lemma CacheChange.liveIn_of_ne (hne : cache1 ≠ cache) :
    LiveIn (s.change cache c' slabs' pmm') used' cache1 x ↔ LiveIn s used cache1 x := by
  constructor
  · rintro ⟨c1, slab, i, hs, hi, hx⟩
    rcases hc.hasSlab hs with ⟨he, -⟩ | ⟨-, hs⟩
    · exact absurd he hne
    obtain ⟨h1, h2⟩ := hc.untouched h hne hs
    rw [(hc.other slab h1 h2).2] at hi
    exact ⟨c1, slab, i, hs, hi, hx⟩
  rintro ⟨c1, slab, i, hs, hi, hx⟩
  obtain ⟨h1, h2⟩ := hc.untouched h hne hs
  rw [← (hc.other slab h1 h2).2] at hi
  exact ⟨c1, slab, i, hasSlab_change_of_ne hne hs, hi, hx⟩

omit h in
lemma CacheChange.liveIn_self : LiveIn (s.change cache c' slabs' pmm') used' cache x ↔
    ∃ slab ∈ c'.slabs, ∃ i ∈ used' slab, x = c.geom.addr slab i := by
  constructor
  · rintro ⟨c1, slab, i, hs, hi, hx⟩
    rcases hc.hasSlab hs with ⟨-, rfl, hmem⟩ | ⟨he, -⟩
    · exact ⟨slab, hmem, i, hi, by rw [hx, hc.geom]⟩
    · exact absurd rfl he
  rintro ⟨slab, hmem, i, hi, hx⟩
  exact ⟨c', slab, i, hc.hasSlab_self hmem, hi, by rw [hx, hc.geom]⟩

lemma CacheChange.cacheOk (hin : cache1 ∈ s.cacheList) :
    ∃ c1, update s.caches cache (some c') cache1 = some c1 ∧ CacheOk slabs' used' cache1 c1 := by
  by_cases he : cache1 = cache
  · subst he
    exact ⟨c', update_self .., hc.ok⟩
  obtain ⟨c1, hc1, hok⟩ := h.cache cache1 hin
  have hsame : ∀ slab ∈ c1.slabs, slabs' slab = s.slabs slab ∧ used' slab = used slab := by
    intro slab hmem
    obtain ⟨h1, h2⟩ := hc.untouched h he ⟨hin, hc1, hmem⟩
    exact hc.other slab h1 h2
  refine ⟨c1, by rwa [update_of_ne he], hok.geom, hok.nodup, ?_, ?_, ?_, ?_, ?_⟩
  · intro slab hmem
    rw [(hsame slab hmem).1, (hsame slab hmem).2]
    exact hok.slab slab hmem
  · intro slab hmem
    rw [(hsame slab (List.mem_append_left _ hmem)).2]
    exact hok.part slab hmem
  · intro slab hmem
    rw [(hsame slab (List.mem_append_right _ (List.mem_append_left _ hmem))).2]
    exact hok.full slab hmem
  · intro slab hmem
    rw [(hsame slab (List.mem_append_right _ (List.mem_append_right _ hmem))).2]
    exact hok.free slab hmem
  rw [hok.active]
  refine sum_congr rfl fun slab hmem => ?_
  rw [(hsame slab (List.mem_toFinset.mp hmem)).2]

lemma CacheChange.inv : KmemInv (s.change cache c' slabs' pmm') used' where
  pmm := hc.pmm
  zero := by
    intro h0
    rcases hc.gone 0 h0 with hf | ⟨slab, hmem, -, hj⟩
    · exact h.zero hf
    obtain ⟨f, hf, rfl, -⟩ := h.placed ⟨hc.listed, hc.caches, hmem⟩
    rw [SlabGeom.frames_frameAddr, mem_Ico] at hj
    omega
  ne_zero := h.ne_zero
  cache := fun _ hin => hc.cacheOk h hin
  apart := by
    intro cache1 c1 slab1 cache2 c2 slab2 hs1 hs2 hne
    rcases hc.hasSlab hs1 with ⟨-, rfl, hm1⟩ | ⟨-, ho1⟩ <;>
      rcases hc.hasSlab hs2 with ⟨-, rfl, hm2⟩ | ⟨-, ho2⟩
    · by_cases hold : slab1 ∈ c.slabs
      · rw [hc.geom]
        have := hc.apart_self h ⟨hc.listed, hc.caches, hold⟩ hm2 hne
        rwa [hc.geom] at this
      · have hold2 : slab2 ∈ c.slabs := by
          by_contra hnew
          exact hne ((hc.fresh slab2 hm2 hnew).2 slab1 hm1 hold)
        have := (hc.apart_self h ⟨hc.listed, hc.caches, hold2⟩ hm1 (Ne.symm hne)).symm
        rw [hc.geom] at this ⊢
        exact this
    · exact (hc.apart_self h ho2 hm1 (Ne.symm hne)).symm
    · exact hc.apart_self h ho1 hm2 hne
    · exact h.apart _ _ _ _ _ _ ho1 ho2 hne
  taken := by
    intro cache1 c1 slab1 hs1 j hj
    rcases hc.hasSlab hs1 with ⟨-, rfl, hm⟩ | ⟨hne, hs1⟩
    · rw [hc.geom] at hj
      by_cases hold : slab1 ∈ c.slabs
      · exact hc.still_taken h ⟨hc.listed, hc.caches, hold⟩ (fun _ => hm) hj
      · exact ((hc.fresh slab1 hm hold).1 j hj).2
    · exact hc.still_taken h hs1 (fun hmem => absurd hmem (hc.untouched h hne hs1).1) hj
  managed := by
    intro cache1 c1 slab1 hs1 j hj
    refine hc.layout.managed ?_
    rcases hc.hasSlab hs1 with ⟨-, rfl, hm⟩ | ⟨-, hs1⟩
    · rw [hc.geom] at hj
      by_cases hold : slab1 ∈ c.slabs
      · exact h.managed _ _ _ ⟨hc.listed, hc.caches, hold⟩ j hj
      · exact (Pmm.frameFree_iff.mp ((hc.fresh slab1 hm hold).1 j hj).1).1
    · exact h.managed _ _ _ hs1 j hj
  early := by
    obtain ⟨e, he⟩ := h.early
    refine ⟨e, he.start, he.stop, he.lt, he.start_le, he.le_stop, fun j hj hf => ?_, ?_⟩
    · rcases hc.gone j hf with hf | ⟨slab, hmem, -, hj'⟩
      · exact he.taken j hj hf
      · exact disjoint_left.mp (he.apart _ _ _ ⟨hc.listed, hc.caches, hmem⟩) hj' hj
    intro cache1 c1 slab1 hs1
    rcases hc.hasSlab hs1 with ⟨-, rfl, hm⟩ | ⟨-, hs1⟩
    · rw [hc.geom]
      by_cases hold : slab1 ∈ c.slabs
      · exact he.apart _ _ _ ⟨hc.listed, hc.caches, hold⟩
      exact disjoint_left.mpr fun j hj hj' =>
        he.taken j hj' ((hc.fresh slab1 hm hold).1 j hj).1
    · exact he.apart _ _ _ hs1
  home := by
    intro cache1 hin
    rcases h.home cache1 hin with hearly | ⟨owner, hlive⟩
    · exact .inl hearly
    refine .inr ⟨owner, ?_⟩
    by_cases he : owner = cache
    · subst he
      obtain ⟨c1, slab, i, hs, hi, rfl⟩ := hlive
      obtain rfl : c = c1 := Option.some.inj (hc.caches.symm.trans hs.cache)
      obtain ⟨hm, hi'⟩ := hc.keep slab hs.slab i hi hin
      exact hc.liveIn_self.mpr ⟨slab, hm, i, hi', rfl⟩
    · exact (hc.liveIn_of_ne h he).mpr hlive
  sizeCaches := h.sizeCaches

omit h in
lemma CacheChange.pool (hj : pmm'.FrameFree j ∨ SlabFrame (s.change cache c' slabs' pmm') j) :
    s.pmm.FrameFree j ∨ SlabFrame s j := by
  rcases hj with hf | ⟨cache1, c1, slab, hs, hj⟩
  · rcases hc.gone j hf with hf | ⟨slab, hmem, -, hj⟩
    · exact .inl hf
    · exact .inr ⟨cache, c, slab, ⟨hc.listed, hc.caches, hmem⟩, hj⟩
  rcases hc.hasSlab hs with ⟨-, rfl, hmem⟩ | ⟨-, hs⟩
  · rw [hc.geom] at hj
    by_cases hold : slab ∈ c.slabs
    · exact .inr ⟨cache, c, slab, ⟨hc.listed, hc.caches, hold⟩, hj⟩
    · exact .inl ((hc.fresh slab hmem hold).1 j hj).1
  · exact .inr ⟨cache1, c1, slab, hs, hj⟩

lemma CacheChange.partialBusy {slab0 slab1 : ℕ} (hb : PartialBusy s used slab0) (h₀ : slab0 = 0 ∨ slab0 ∈ c.slabs)
    (hself : c.objectsPerSlab ≠ 1 → ∀ x ∈ c'.slabsPartial, x ≠ slab1 → used' x ≠ ∅) :
    PartialBusy (s.change cache c' slabs' pmm') used' slab1 := by
  intro cache1 c1 x hs hn hpart hne
  rcases hc.hasSlab hs with ⟨-, rfl, -⟩ | ⟨hcache, hs1⟩
  · exact hself (fun he => hn (by rw [← he]; exact congrArg SlabGeom.objectsPerSlab hc.geom)) x hpart hne
  obtain ⟨hnot, hnot'⟩ := hc.untouched h hcache hs1
  rw [(hc.other x hnot hnot').2]
  refine hb cache1 c1 x hs1 hn hpart ?_
  rintro rfl
  rcases h₀ with rfl | h₀
  · exact absurd ((h.placed hs1).lt (h.geom hs1)).1 (lt_irrefl 0)
  · exact hnot h₀

end Change

lemma LiveIn.ne_zero (hx : LiveIn s used cache x) : x ≠ 0 := by
  obtain ⟨c, slab, i, -, -, rfl⟩ := hx
  rw [SlabGeom.addr, sizeofSlab]
  omega

end Inv

end Obelisk
