import Obelisk.Slab.Run

/-!
# What the caches guarantee

- `heap_run_exclusive`: live objects never overlap.
- `shrink_reclaims`: empty slabs are given back.
- `cache_create_iff`: when all objects of a cache are aligned.
-/

namespace Obelisk

open KLib Finset Option KmemOp

def HeapState.inUse (x : HeapState) (cache : ℕ) (c : KmemCache) (sl : Slab) : Finset ℕ :=
  (range c.objectsPerSlab).filter fun i => (cache, sl.base + i * c.alignedSize) ∈ x.objs

/-- No two live objects overlap, and the free lists hold the others. -/
structure Exclusive (x : HeapState) : Prop where
  nodup : x.objs.Nodup
  disjoint : ∀ o p o' p' c c', (o, p) ∈ x.objs → (o', p') ∈ x.objs → (o, p) ≠ (o', p') →
    x.kmem.caches o = some c → x.kmem.caches o' = some c' →
    p + c.alignedSize ≤ p' ∨ p' + c'.alignedSize ≤ p
  inside : ∀ o p, (o, p) ∈ x.objs → ∃ c slab sl, x.kmem.caches o = some c ∧ slab ∈ c.slabs ∧
    x.kmem.slabs slab = some sl ∧ slab + sizeofSlab ≤ p ∧ p + c.alignedSize ≤ sl.freelist ∧
    sl.freelist + 4 * c.objectsPerSlab ≤ slab + c.slabSize
  chain : ∀ cache c slab, HasSlab x.kmem cache c slab → ∃ sl l, x.kmem.slabs slab = some sl ∧
    Chain sl.links uint32Max sl.freeIdx l ∧ l.Nodup ∧
    (∀ i, i ∈ l ↔ i < c.objectsPerSlab ∧ i ∉ x.inUse cache c sl) ∧
    sl.inuse = (x.inUse cache c sl).card
  active : ∀ cache ∈ x.kmem.cacheList, ∀ c, x.kmem.caches cache = some c →
    c.activeObjects = (c.slabs.map fun slab => ((x.kmem.slabs slab).map Slab.inuse).getD 0).sum
  null : ∀ cache ∈ x.kmem.cacheList, ∀ s, kmemCacheAlloc cache x.kmem = some (0, s) → NoPages cache x.kmem

section Exclusive

variable {x : HeapState} {used : ℕ → Finset ℕ} {cache slab : ℕ} {c : KmemCache} {sl : Slab}

lemma HeapOk.inUse_eq (h : HeapOk x used) (hs : HasSlab x.kmem cache c slab)
    (hok : SlabOk cache c.geom slab sl (used slab)) : x.inUse cache c sl = used slab := by
  ext i
  have hmem : ∀ hi : i < c.objectsPerSlab,
      (cache, sl.base + i * c.alignedSize) ∈ x.objs ↔ i ∈ used slab := by
    intro hi
    rw [hok.base, h.objs]
    exact h.inv.liveIn_iff hs hi
  rw [HeapState.inUse, mem_filter, mem_range]
  exact ⟨fun hi => (hmem hi.1).mp hi.2, fun hi => ⟨h.inv.used_lt hs hi, (hmem (h.inv.used_lt hs hi)).mpr hi⟩⟩

lemma KmemInv.disjoint {s : Kmem} {slab' i j : ℕ} {cache' : ℕ} {c' : KmemCache}
    (h : KmemInv s used) (hs : HasSlab s cache c slab) (hs' : HasSlab s cache' c' slab')
    (hi : i < c.objectsPerSlab) (hj : j < c'.objectsPerSlab) (hne : (slab, i) ≠ (slab', j)) :
    c.geom.addr slab i + c.alignedSize ≤ c'.geom.addr slab' j ∨
      c'.geom.addr slab' j + c'.alignedSize ≤ c.geom.addr slab i := by
  by_cases he : slab = slab'
  · subst he
    obtain ⟨-, rfl⟩ := h.same_cache hs hs'
    have hij : i ≠ j := fun he => hne (by rw [he])
    have hstep : ∀ a b : ℕ, a < b → c.geom.addr slab a + c.alignedSize ≤ c.geom.addr slab b := by
      intro a b hab
      have := Nat.mul_le_mul_right c.alignedSize (show a + 1 ≤ b from hab)
      rw [add_mul, one_mul] at this
      show slab + sizeofSlab + a * c.alignedSize + c.alignedSize ≤ slab + sizeofSlab + b * c.alignedSize
      omega
    rcases Nat.lt_or_gt_of_ne hij with hlt | hlt
    · exact .inl (hstep i j hlt)
    · exact .inr (hstep j i hlt)
  by_contra hover
  rw [not_or, not_le, not_le] at hover
  have hb := h.bounds hs hi
  have hb' := h.bounds hs' hj
  refine (h.placed hs).disjoint (h.geom hs) (h.geom hs') (h.placed hs') (h.apart _ _ _ _ _ _ hs hs' he)
    (x := max (c.geom.addr slab i) (c'.geom.addr slab' j)) ?_ ?_ ⟨?_, ?_⟩
  · exact le_max_of_le_left (by omega)
  · exact max_lt (show _ < slab + c.slabSize by omega) (show _ < slab + c.slabSize by omega)
  · exact le_max_of_le_right (by omega)
  · exact max_lt (show _ < slab' + c'.slabSize by omega) (show _ < slab' + c'.slabSize by omega)

lemma HeapOk.exclusive (h : HeapOk x used) : Exclusive x where
  nodup := h.nodup
  disjoint := by
    intro o p o' p' c c' hp hp' hne hc hc'
    obtain ⟨c1, slab, i, hs, hi, rfl⟩ := (h.objs o p).mp hp
    obtain ⟨c2, slab', j, hs', hj, rfl⟩ := (h.objs o' p').mp hp'
    obtain rfl : c = c1 := some.inj (hc.symm.trans hs.cache)
    obtain rfl : c' = c2 := some.inj (hc'.symm.trans hs'.cache)
    refine h.inv.disjoint hs hs' (h.inv.used_lt hs hi) (h.inv.used_lt hs' hj) fun he => hne ?_
    obtain ⟨rfl, rfl⟩ := Prod.mk.injEq .. ▸ he
    obtain ⟨rfl, rfl⟩ := h.inv.same_cache hs hs'
    rfl
  inside := by
    intro o p hp
    obtain ⟨c, slab, i, hs, hi, rfl⟩ := (h.objs o p).mp hp
    obtain ⟨sl, hsl, hok⟩ := h.inv.slabOk hs
    have hb := h.inv.bounds hs (h.inv.used_lt hs hi)
    have hfl : sl.freelist = slab + sizeofSlab + c.objectsPerSlab * c.alignedSize := hok.freelist
    exact ⟨c, slab, sl, hs.cache, hs.slab, hsl, by omega, by omega, by omega⟩
  chain := by
    intro cache c slab hs
    obtain ⟨sl, hsl, hok⟩ := h.inv.slabOk hs
    obtain ⟨l, hchain, hnodup, hmem⟩ := hok.free.chain
    rw [← h.inUse_eq hs hok] at hmem
    exact ⟨sl, l, hsl, hchain, hnodup, hmem, by rw [h.inUse_eq hs hok]; exact hok.inuse⟩
  active := by
    intro cache hin c hc
    have hok := h.inv.cacheOk hin hc
    rw [hok.active, ← List.sum_toFinset _ hok.nodup]
    refine sum_congr rfl fun slab hmem => ?_
    obtain ⟨sl, hsl, hslab⟩ := hok.slab slab (List.mem_toFinset.mp hmem)
    rw [hsl, ← hslab.inuse]
    rfl
  null := by
    intro cache hin s hrun
    obtain ⟨obj, s', used', hrun', -, -, -, hres⟩ := kmemCacheAlloc_spec h.inv hin
    rw [hrun] at hrun'
    cases hrun'
    rcases hres with ⟨-, hno, -⟩ | ⟨-, hlive⟩
    · exact hno
    · exact absurd rfl ((hlive cache 0).mpr (.inr ⟨rfl, rfl⟩)).ne_zero

end Exclusive

/-- **Exclusive use over every run**: whatever caches are created, and whatever objects are taken and
given back, with the right or the wrong cache, the heap never hands out overlapping objects. -/
theorem heap_run_exclusive {pmm : Pmm} {x : HeapState} (hb : Boots pmm x) {ops : List KmemOp}
    (hv : HeapValid ops x) : Exclusive (heapRun ops x) := by
  obtain ⟨used, hok, -⟩ := heapRun_ok hb.ok hv
  exact hok.exclusive

theorem heap_run_exclusive_small : HeapValid [.cacheCreate 24 8 0,
      .cacheAlloc (smallHeap.kmem.sizeCaches 2), .kmalloc 100, .kmalloc 9000,
      .cacheFree (smallHeap.kmem.sizeCaches 0) 0xFFFF888000002030] smallHeap ∧
    Exclusive (heapRun [.cacheCreate 24 8 0, .cacheAlloc (smallHeap.kmem.sizeCaches 2), .kmalloc 100,
      .kmalloc 9000, .cacheFree (smallHeap.kmem.sizeCaches 0) 0xFFFF888000002030] smallHeap) :=
  ⟨by decide +kernel, heap_run_exclusive smallHeap_boots (by decide +kernel)⟩

section Reclaim

variable {x : HeapState} {used : ℕ → Finset ℕ} {cache slab : ℕ} {c : KmemCache}

lemma HeapOk.list_iff (h : HeapOk x used) (hs : HasSlab x.kmem cache c slab) (hn : c.objectsPerSlab ≠ 1) :
    (slab ∈ c.slabsFull ↔ (used slab).card = c.objectsPerSlab) ∧
      (slab ∈ c.slabsPartial ↔ 0 < (used slab).card ∧ (used slab).card < c.objectsPerSlab) ∧
      (slab ∈ c.slabsFree ↔ (used slab).card = 0) := by
  have hok := h.inv.cacheOk hs.listed hs.cache
  have hpos : 0 < c.objectsPerSlab := hok.geom.objs_pos
  have hslab := ((h.inv.placed hs).lt (h.inv.geom hs)).1
  have hpart : slab ∈ c.slabsPartial →
      0 < (used slab).card ∧ (used slab).card < c.objectsPerSlab := fun hm =>
    ⟨card_pos.mpr (nonempty_iff_ne_empty.mpr (h.busy cache c slab hs hn hm (by omega))), hok.part slab hm⟩
  have hfull := hok.full slab
  have hfree : slab ∈ c.slabsFree → (used slab).card = 0 := fun hm => by
    rw [hok.free slab hm, card_empty]
  have hmem := KmemCache.mem_slabs.mp hs.slab
  refine ⟨⟨hfull, fun he => ?_⟩, ⟨hpart, fun he => ?_⟩, ⟨hfree, fun he => ?_⟩⟩
  · rcases hmem with hm | hm | hm
    · have := hpart hm
      omega
    · exact hm
    · have := hfree hm
      omega
  · rcases hmem with hm | hm | hm
    · exact hm
    · have := hfull hm
      omega
    · have := hfree hm
      omega
  rcases hmem with hm | hm | hm
  · have := hpart hm
    omega
  · have := hfull hm
    omega
  · exact hm

/-- **Empty slabs can be reclaimed** if a slab holds at least two objects: over every run a slab is on
the list that its `inuse` says, and when no object of the cache is in use, `kmem_cache_shrink` gives
all its pages back. -/
theorem shrink_reclaims {pmm : Pmm} (hb : Boots pmm x) {ops : List KmemOp} (hv : HeapValid ops x)
    (hin : cache ∈ (heapRun ops x).kmem.cacheList)
    (hc : (heapRun ops x).kmem.caches cache = some c) (hn : c.objectsPerSlab ≠ 1) :
    (∀ slab ∈ c.slabs, ∃ sl, (heapRun ops x).kmem.slabs slab = some sl ∧
      (slab ∈ c.slabsFull ↔ sl.inuse = c.objectsPerSlab) ∧
      (slab ∈ c.slabsPartial ↔ 0 < sl.inuse ∧ sl.inuse < c.objectsPerSlab) ∧
      (slab ∈ c.slabsFree ↔ sl.inuse = 0)) ∧
    ((∀ p, (cache, p) ∉ (heapRun ops x).objs) → ∃ n s, kmemCacheShrink cache (heapRun ops x).kmem = some (n, s) ∧
        (∃ c', s.caches cache = some c' ∧ c'.slabs = []) ∧
        ∀ slab ∈ c.slabs, ∀ j ∈ c.geom.frames slab, s.pmm.FrameFree j) := by
  obtain ⟨used, hok, -⟩ := heapRun_ok hb.ok hv
  refine ⟨fun slab hmem => ?_, fun hnone => ?_⟩
  · have hs : HasSlab (heapRun ops x).kmem cache c slab := ⟨hin, hc, hmem⟩
    obtain ⟨sl, hsl, hslab⟩ := hok.inv.slabOk hs
    refine ⟨sl, hsl, ?_⟩
    rw [hslab.inuse]
    exact hok.list_iff hs hn
  -- without objects in use, every slab is on the list of free slabs
  have hfree : ∀ slab ∈ c.slabs, slab ∈ c.slabsFree := by
    intro slab hmem
    have hs : HasSlab (heapRun ops x).kmem cache c slab := ⟨hin, hc, hmem⟩
    refine (hok.list_iff hs hn).2.2.mpr (card_eq_zero.mpr ?_)
    refine eq_empty_of_forall_notMem fun i hi => ?_
    exact hnone _ ((hok.objs cache _).mpr ⟨c, slab, i, hs, hi, rfl⟩)
  have hcache := hok.inv.cacheOk hin hc
  have hnodup := hcache.nodup
  rw [KmemCache.slabs, List.nodup_append', List.nodup_append'] at hnodup
  have hpart : c.slabsPartial = [] := List.eq_nil_iff_forall_not_mem.mpr fun slab hm =>
    hnodup.2.2 hm (List.mem_append_right _ (hfree slab (KmemCache.mem_slabs.mpr (.inl hm))))
  have hfull : c.slabsFull = [] := List.eq_nil_iff_forall_not_mem.mpr fun slab hm =>
    hnodup.2.1.2.2 hm (hfree slab (KmemCache.mem_slabs.mpr (.inr (.inl hm))))
  obtain ⟨s, hrun, hsh⟩ := kmemCacheShrink_spec hok.inv hin hc
  obtain ⟨n, m, hc'⟩ := hsh.self
  refine ⟨_, s, hrun, ⟨_, hc', ?_⟩, fun slab hmem j hj => ?_⟩
  · simp only [KmemCache.slabs, hpart, hfull, List.append_nil]
  · exact (hsh.frames j).mpr (.inr ⟨slab, hfree slab hmem, hj⟩)

end Reclaim

theorem shrink_reclaims_small : ∃ c n s, (heapRun [.kmalloc 200, .kmalloc 250,
      .kfree 0xFFFF888000001030, .kfree 0xFFFF888000001130] smallHeap).kmem.caches
        (smallHeap.kmem.sizeCaches 5) = some c ∧ c.slabs = [0xFFFF888000001000] ∧
      kmemCacheShrink (smallHeap.kmem.sizeCaches 5) (heapRun [.kmalloc 200, .kmalloc 250,
        .kfree 0xFFFF888000001030, .kfree 0xFFFF888000001130] smallHeap).kmem = some (n, s) ∧
      s.pmm.FrameFree 1 := by
  obtain ⟨c, hc, hn, hslabs, hsize⟩ : ∃ c, (heapRun [.kmalloc 200, .kmalloc 250,
      .kfree 0xFFFF888000001030, .kfree 0xFFFF888000001130] smallHeap).kmem.caches
        (smallHeap.kmem.sizeCaches 5) = some c ∧ c.objectsPerSlab ≠ 1 ∧
      c.slabs = [0xFFFF888000001000] ∧ c.slabSize = 4096 := by
    refine ⟨_, eq_some_of_isSome (by decide +kernel), ?_, ?_, ?_⟩ <;> decide +kernel
  have hv : HeapValid [.kmalloc 200, .kmalloc 250, .kfree 0xFFFF888000001030,
      .kfree 0xFFFF888000001130] smallHeap := by decide +kernel
  have hobjs : (heapRun [.kmalloc 200, .kmalloc 250, .kfree 0xFFFF888000001030,
      .kfree 0xFFFF888000001130] smallHeap).objs = [] := by decide +kernel
  obtain ⟨n, s, hrun, -, hfree⟩ := (shrink_reclaims smallHeap_boots hv (by decide +kernel) hc hn).2
    fun p hp => by rw [hobjs] at hp; cases hp
  refine ⟨c, n, s, hc, hslabs, hrun, hfree 0xFFFF888000001000 (by rw [hslabs]; exact List.mem_cons_self) 1 ?_⟩
  rw [SlabGeom.frames, show c.geom.slabSize = 4096 from hsize]
  decide

/-- With one object in a slab the empty slab stays on the list of partial slabs, and
`kmem_cache_shrink` does not give its pages back. -/
theorem empty_slab_kept : Boots smallFrames smallHeap ∧
    HeapValid [.kmalloc 4096, .kfree 0xFFFF888000001030] smallHeap ∧
    (heapRun [.kmalloc 4096, .kfree 0xFFFF888000001030] smallHeap).objs = [] ∧
    ((heapRun [.kmalloc 4096, .kfree 0xFFFF888000001030] smallHeap).kmem.slabs
      0xFFFF888000001000).map Slab.inuse = some 0 ∧
    ((heapRun [.kmalloc 4096, .kfree 0xFFFF888000001030] smallHeap).kmem.caches
      (smallHeap.kmem.sizeCaches 9)).map KmemCache.slabsPartial = some [0xFFFF888000001000] ∧
    (kmemCacheShrink (smallHeap.kmem.sizeCaches 9)
      (heapRun [.kmalloc 4096, .kfree 0xFFFF888000001030] smallHeap).kmem).map
        (fun r => (r.1, bitmapTest r.2.pmm.bitmap 1)) = some (0, true) := by
  refine ⟨smallHeap_boots, ?_⟩
  decide +kernel

section Layout

variable {x : HeapState} {used : ℕ → Finset ℕ} {cache size k m : ℕ} {c : KmemCache} {flags : BitVec 32}

def HasMemory (size align : ℕ) (flags : BitVec 32) (s : Kmem) : Prop :=
  ∃ p s₁, kmalloc sizeofKmemCache s = some (p, s₁) ∧ p ≠ 0 ∧
    (pmmAllocPages ((newCache size align flags).slabSize / pageSize) s₁.pmm).1 ≠ 0

/-- The new cache has room for an object in each slab, and every object that is ever taken from it is
aligned. -/
def CreatesAligned (size align : ℕ) (flags : BitVec 32) (x : HeapState) : Prop :=
  ∃ cache c, (KmemOp.exec (.cacheCreate size align flags) x).1 = some cache ∧ cache ≠ 0 ∧
    (KmemOp.exec (.cacheCreate size align flags) x).2.kmem.caches cache = some c ∧
    1 ≤ c.objectsPerSlab ∧
    ∀ ops, HeapValid ops (KmemOp.exec (.cacheCreate size align flags) x).2 → ∀ obj, (KmemOp.exec (.cacheAlloc cache)
          (heapRun ops (KmemOp.exec (.cacheCreate size align flags) x).2)).1 = some obj →
        obj % c.align = 0

lemma addr_mod {g : SlabGeom} {f i : ℕ} (hm : m ≤ 12) (hdvd : 2 ^ m ∣ g.alignedSize) :
    g.addr (frameAddr f) i % 2 ^ m = 48 % 2 ^ m := by
  have h1 : 2 ^ m ∣ kernelPhysMapBase := (pow_dvd_pow 2 hm).trans (by decide)
  have h2 : 2 ^ m ∣ f * 4096 := ((pow_dvd_pow 2 hm).trans (by decide)).mul_left f
  have h3 : 2 ^ m ∣ i * g.alignedSize := hdvd.mul_left i
  have hsum : g.addr (frameAddr f) i = 48 + (kernelPhysMapBase + f * 4096 + i * g.alignedSize) := by
    rw [SlabGeom.addr, frameAddr, sizeofSlab]
    omega
  rw [hsum]
  exact (Nat.modEq_iff_dvd' le_self_add).mpr
    (by rw [Nat.add_sub_cancel_left]; exact Nat.dvd_add (Nat.dvd_add h1 h2) h3) |>.symm

lemma HeapOk.alloc_mod (h : HeapOk x used) (hin : cache ∈ x.kmem.cacheList)
    (hc : x.kmem.caches cache = some c) (hm : m ≤ 12) (hdvd : 2 ^ m ∣ c.alignedSize) {obj : ℕ}
    (hrun : (exec (.cacheAlloc cache) x).1 = some obj) :
    (obj = 0 ∧ NoPages cache x.kmem) ∨ obj % 2 ^ m = 48 % 2 ^ m := by
  obtain ⟨obj', s', used', hal, hgrow, -, hinv, hres⟩ := kmemCacheAlloc_spec h.inv hin
  simp only [exec, hal, some.injEq] at hrun
  subst hrun
  rcases hres with ⟨h0, hno, -⟩ | ⟨-, hlive⟩
  · exact .inl ⟨h0, hno⟩
  obtain ⟨c1, slab, i, hs, -, rfl⟩ := (hlive cache obj').mpr (.inr ⟨rfl, rfl⟩)
  obtain ⟨c', hc', hg⟩ := hgrow.caches cache hin c hc
  obtain rfl : c1 = c' := some.inj (hs.cache.symm.trans hc')
  obtain ⟨f, -, rfl, -⟩ := hinv.placed hs
  rw [hg]
  exact .inr (addr_mod hm hdvd)

lemma createFits_of_le (hmax : size ≤ 2 ^ 31) (hk : k ≤ 12) : CreateFits size (2 ^ k) flags := by
  obtain ⟨m, hm, -, hm12⟩ := cacheAlign_two_pow k flags
  have hpow : 2 ^ m ≤ 2 ^ 12 := Nat.pow_le_pow_right (by norm_num) (by omega)
  have hlt : size + (2 ^ m - 1) < 2 ^ 64 := by omega
  obtain ⟨-, -, hup⟩ := alignUp_spec hlt (by omega)
  rw [CreateFits, hm, sizeofSlab, pageSize]
  exact ⟨hlt, by omega⟩

lemma HeapOk.create (h : HeapOk x used) (hsize : 1 ≤ size) (hmax : size ≤ 2 ^ 31) (hk : k ≤ 12)
    (hmem : HasMemory size (2 ^ k) flags x.kmem) :
    (∃ used', HeapOk (exec (.cacheCreate size (2 ^ k) flags) x).2 used') ∧
      (((newCache size (2 ^ k) flags).objectsPerSlab = 0 ∧ (exec (.cacheCreate size (2 ^ k) flags) x).1 = some 0) ∨
      ((newCache size (2 ^ k) flags).objectsPerSlab ≠ 0 ∧ ∃ cache, cache ≠ 0 ∧
        (exec (.cacheCreate size (2 ^ k) flags) x).1 = some cache ∧
        cache ∈ (exec (.cacheCreate size (2 ^ k) flags) x).2.kmem.cacheList ∧
        (exec (.cacheCreate size (2 ^ k) flags) x).2.kmem.caches cache = some (newCache size (2 ^ k) flags) ∧
        ¬ NoPages cache (exec (.cacheCreate size (2 ^ k) flags) x).2.kmem)) := by
  have hfit : CreateFits size (2 ^ k) flags := createFits_of_le hmax hk
  have hv : KmemOp.Valid (.cacheCreate size (2 ^ k) flags) x := ⟨hsize, ⟨k, by omega, rfl⟩, hfit⟩
  refine ⟨(exec_ok _ h hv).2.2, ?_⟩
  obtain ⟨p1, s1, cache, s', used', hrun, hcr, -, -, -, -, hres⟩ :=
    kmemCacheCreate_spec h.inv h.init (by omega) hsize hfit
  obtain ⟨p, s2, hrun', hp, hpages⟩ := hmem
  obtain ⟨rfl, rfl⟩ : p1 = p ∧ s1 = s2 := by
    rw [hrun] at hrun'
    simpa using hrun'
  simp only [exec, hrun, hcr]
  cases hres with
  | noMemory h0 => exact absurd h0 hp
  | noObjects _ hn => exact .inl ⟨hn, rfl⟩
  | ok _ hn _ _ _ =>
    refine .inr ⟨hn, p1, hp, rfl, List.mem_cons_self, Function.update_self .., ?_⟩
    rintro ⟨c, hc, -, -, hz⟩
    have hself : (s1.addCache p1 (newCache size (2 ^ k) flags)).caches p1 =
        some (newCache size (2 ^ k) flags) := Function.update_self ..
    obtain rfl : newCache size (2 ^ k) flags = c := some.inj (hself.symm.trans hc)
    exact hpages hz

/-- **The layout of a new cache**: with memory available, creation succeeds and all objects are
aligned exactly when the alignment of the cache is at most 16 and its aligned size, if it is larger
than a page, does not fill its pages together with the header. -/
theorem cache_create_iff {pmm : Pmm} (hb : Boots pmm x) {ops : List KmemOp} (hv : HeapValid ops x)
    (hsize : 1 ≤ size) (hmax : size ≤ 2 ^ 31) (hk : k ≤ 12)
    (hmem : HasMemory size (2 ^ k) flags (heapRun ops x).kmem) :
    CreatesAligned size (2 ^ k) flags (heapRun ops x) ↔ cacheAlign (2 ^ k) flags ≤ 16 ∧
      ¬ (4096 < alignUp size (cacheAlign (2 ^ k) flags) ∧
        (alignUp size (cacheAlign (2 ^ k) flags) + sizeofSlab) % 4096 = 0) := by
  obtain ⟨used, hok, -⟩ := heapRun_ok hb.ok hv
  generalize heapRun ops x = y at hmem hok ⊢
  obtain ⟨⟨used', hok'⟩, hres⟩ := hok.create hsize hmax hk hmem
  have hfit : CreateFits size (2 ^ k) flags := createFits_of_le hmax hk
  obtain ⟨hdvd, hzero, -⟩ := newCache_geom (by omega) hsize hfit
  obtain ⟨m, hm, hm3, hm12⟩ := cacheAlign_two_pow k flags
  rw [hm] at hdvd
  have hzero' : (newCache size (2 ^ k) flags).objectsPerSlab = 0 ↔ 4096 < alignUp size (cacheAlign (2 ^ k) flags) ∧
        (alignUp size (cacheAlign (2 ^ k) flags) + sizeofSlab) % 4096 = 0 := hzero
  have halign : (newCache size (2 ^ k) flags).align = 2 ^ m := hm
  have h16 : 2 ^ m ≤ 16 ↔ m ≤ 4 := Nat.pow_le_pow_iff_right (a := 2) (n := m) (m := 4) (by norm_num)
  have h48 : 48 % 2 ^ m = 0 ↔ m ≤ 4 := by
    have : ∀ m ≤ 12, 3 ≤ m → (48 % 2 ^ m = 0 ↔ m ≤ 4) := by decide
    exact this m (by omega) hm3
  rw [← hzero', hm, h16]
  rcases hres with ⟨hn, hrun⟩ | ⟨hn, cache, hcache, hrun, hin, hc, hpages⟩
  · -- no object fits: creation fails
    refine iff_of_false ?_ fun h => h.2 hn
    rintro ⟨cache, c, hrun', hcache, -⟩
    rw [hrun] at hrun'
    exact hcache (some.inj hrun').symm
  constructor
  · rintro ⟨cache', c, hrun', -, hc', -, hall⟩
    obtain rfl : cache = cache' := some.inj (hrun.symm.trans hrun')
    obtain rfl : newCache size (2 ^ k) flags = c := some.inj (hc.symm.trans hc')
    refine ⟨h48.mp ?_, hn⟩
    -- the first object that is taken
    obtain ⟨⟨obj, hobj⟩, -⟩ := exec_ok (.cacheAlloc cache) hok' hin
    have hmod := hall [] trivial obj hobj
    rw [halign] at hmod
    rcases hok'.alloc_mod hin hc (show m ≤ 12 by omega) hdvd hobj with ⟨-, hno⟩ | hmod'
    · exact absurd hno hpages
    · rw [← hmod', hmod]
  rintro ⟨hm4, -⟩
  refine ⟨cache, _, hrun, hcache, hc, pos_of_ne_zero hn, fun ops' hv' obj hobj => ?_⟩
  obtain ⟨used'', hok'', hkeep⟩ := heapRun_ok hok' hv'
  obtain ⟨hin'', c'', hc'', hg⟩ := hkeep.caches cache hin _ hc
  have hsame : c''.alignedSize = (newCache size (2 ^ k) flags).alignedSize :=
    congrArg SlabGeom.alignedSize hg
  rw [halign]
  rcases hok''.alloc_mod hin'' hc'' (show m ≤ 12 by omega) (hsame ▸ hdvd) hobj with ⟨rfl, -⟩ | hmod
  · exact Nat.zero_mod _
  rw [hmod]
  exact h48.mpr hm4

end Layout

lemma smallHeap_memory (align : ℕ) (h : align = 16 ∨ align = 32) :
    HasMemory 100 align 0 smallHeap.kmem := by
  have hrun : ∃ r, kmalloc sizeofKmemCache smallHeap.kmem = some r ∧ r.1 ≠ 0 ∧
      (pmmAllocPages 1 r.2.pmm).1 ≠ 0 := by
    refine ⟨_, eq_some_of_isSome (by decide +kernel), ?_, ?_⟩ <;> decide +kernel
  obtain ⟨⟨p, s1⟩, hrun, hp, hpages⟩ := hrun
  refine ⟨p, s1, hrun, hp, ?_⟩
  rcases h with rfl | rfl <;> exact hpages

theorem cache_create_iff_small : HasMemory 100 16 0 smallHeap.kmem ∧
    CreatesAligned 100 16 0 smallHeap :=
  ⟨smallHeap_memory 16 (.inl rfl),
    (@cache_create_iff smallHeap 100 4 0 smallFrames smallHeap_boots [] trivial (by decide)
      (by decide) (by decide) (smallHeap_memory 16 (.inl rfl))).mpr (by decide)⟩

theorem misaligned_object : Boots smallFrames smallHeap ∧ HasMemory 100 32 0 smallHeap.kmem ∧
    (KmemOp.exec (.cacheCreate 100 32 0) smallHeap).1 = some 0xFFFF888000001030 ∧
    ((KmemOp.exec (.cacheCreate 100 32 0) smallHeap).2.kmem.caches 0xFFFF888000001030).map
      KmemCache.align = some 32 ∧
    (KmemOp.exec (.cacheAlloc 0xFFFF888000001030)
      (KmemOp.exec (.cacheCreate 100 32 0) smallHeap).2).1 = some 0xFFFF888000002030 ∧
    0xFFFF888000002030 % 32 ≠ 0 := by
  refine ⟨smallHeap_boots, smallHeap_memory 32 (.inr rfl), ?_⟩
  decide +kernel

end Obelisk
