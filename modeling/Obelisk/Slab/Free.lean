import Obelisk.Slab.Alloc

/-!
# Giving objects and slabs back

`kmem_cache_free` looks for the slab of the object in the cache it is given, and if that fails in
all caches.
-/

namespace Obelisk

open KLib Function Finset KmemCache

variable {sl : Slab} {l rest : List ℕ} {slabs : ℕ → Option Slab}

section Find

variable {s : Kmem} {used : ℕ → Finset ℕ} {cache cache' slab slab' i x t : ℕ} {c c' : KmemCache}

section

variable (h : KmemInv s used) (hs : HasSlab s cache c slab)
include h hs

lemma KmemInv.bounds (hi : i < c.objectsPerSlab) : 0 < slab ∧ slab + sizeofSlab ≤ c.geom.addr slab i ∧
      c.geom.addr slab i + c.alignedSize ≤ slab + sizeofSlab + c.objectsPerSlab * c.alignedSize ∧
      slab + sizeofSlab + c.objectsPerSlab * c.alignedSize + c.objectsPerSlab * 4 ≤
        slab + c.slabSize ∧ slab + c.slabSize < 2 ^ 64 ∧ 0 < c.alignedSize := by
  obtain ⟨h1, h2, h3⟩ := SlabGeom.addr_bounds slab (h.geom hs) hi
  obtain ⟨h4, h5⟩ := (h.placed hs).lt (h.geom hs)
  exact ⟨h4, h1, h2, h3, h5, (h.geom hs).aligned_pos⟩

lemma KmemInv.stop_eq (hok : SlabOk cache c.geom slab sl (used slab)) :
    u64 (sl.base + c.objectsPerSlab * c.alignedSize) =
      slab + sizeofSlab + c.objectsPerSlab * c.alignedSize := by
  have hb := h.bounds hs (h.geom hs).objs_pos
  rw [hok.base]
  exact u64_of_lt (by omega)

lemma contains_of_outside
    (hx : ¬ (slab ≤ x ∧ x < slab + c.slabSize)) : slabContainsObj cache slab x s = some false := by
  obtain ⟨sl, hsl, hok⟩ := h.slabOk hs
  have hb := h.bounds hs (h.geom hs).objs_pos
  have hstop := h.stop_eq hs hok
  unfold slabContainsObj
  split_ifs with h0
  · rfl
  simp only [Option.bind_eq_bind, hsl, hs.cache, Option.bind_some, hstop]
  rw [hok.base, if_pos (by omega)]

lemma contains_self
    (hi : i < c.objectsPerSlab) : slabContainsObj cache slab (c.geom.addr slab i) s = some true := by
  obtain ⟨sl, hsl, hok⟩ := h.slabOk hs
  have hb := h.bounds hs hi
  have hstop := h.stop_eq hs hok
  have hcache : cache ≠ 0 := fun he => h.ne_zero (he ▸ hs.listed)
  have hmod : (c.geom.addr slab i - (slab + sizeofSlab)) % c.alignedSize = 0 := by
    rw [SlabGeom.addr, Nat.add_sub_cancel_left]
    exact Nat.mul_mod_left _ _
  unfold slabContainsObj
  rw [if_neg (by omega)]
  simp only [Option.bind_eq_bind, hsl, hs.cache, Option.bind_some, hstop]
  rw [hok.base, if_neg (by omega), hmod]
  rfl

end

lemma findSlabInList_eq (hl : ∀ y ∈ l, slabContainsObj cache y x s = some (decide (y = t))) :
    findSlabInList cache x s l = some (if t ∈ l then t else 0) := by
  induction l with
  | nil => rfl
  | cons y l ih =>
    obtain ⟨hy, hrest⟩ := List.forall_mem_cons.mp hl
    rw [findSlabInList, hy]
    simp only [Option.bind_eq_bind, Option.bind_some, decide_eq_true_eq, List.mem_cons]
    split_ifs with h1 h2 h3
    · rw [h1]
    · exact absurd (.inl h1.symm) h2
    · rw [ih hrest, if_pos (h3.resolve_left (Ne.symm h1))]
    · rw [ih hrest, if_neg fun hm => h3 (.inr hm)]

def Locates (s : Kmem) (x t : ℕ) : Prop :=
  ∀ cache c slab, HasSlab s cache c slab → slabContainsObj cache slab x s = some (decide (slab = t))

lemma findSlabInCache_eq (hl : Locates s x t) (hin : cache ∈ s.cacheList) (hc : s.caches cache = some c) :
    findSlabInCache cache x s = some (if t ∈ c.slabs then t else 0) := by
  have hlist : ∀ l : List ℕ, (∀ y ∈ l, y ∈ c.slabs) →
      findSlabInList cache x s l = some (if t ∈ l then t else 0) := fun l hsub =>
    findSlabInList_eq fun y hy => hl cache c y ⟨hin, hc, hsub y hy⟩
  unfold findSlabInCache
  rw [hc]
  simp only [Option.bind_eq_bind, Option.bind_some]
  rw [hlist _ fun y hy => mem_slabs.mpr (.inl hy), hlist _ fun y hy => mem_slabs.mpr (.inr (.inl hy)),
    hlist _ fun y hy => mem_slabs.mpr (.inr (.inr hy))]
  simp only [Option.bind_some, mem_slabs]
  by_cases h0 : t = 0
  · simp [h0]
  · split_ifs <;> first | rfl | tauto

section

variable (h : KmemInv s used)
include h

lemma KmemInv.locates (hs : HasSlab s cache c slab)
    (hi : i < c.objectsPerSlab) : Locates s (c.geom.addr slab i) slab := by
  intro cache' c' slab' hs'
  by_cases he : slab' = slab
  · subst he
    obtain ⟨rfl, rfl⟩ := h.same_cache hs hs'
    rw [contains_self h hs hi, decide_eq_true rfl]
  · rw [contains_of_outside h hs' (h.not_in hs hs' (Ne.symm he) hi), decide_eq_false he]

lemma KmemInv.locates_none (hx : ∀ cache c slab, HasSlab s cache c slab → ¬ (slab ≤ x ∧ x < slab + c.slabSize)) :
    Locates s x 0 := by
  intro cache c slab hs
  have hpos := ((h.placed hs).lt (h.geom hs)).1
  rw [contains_of_outside h hs (hx cache c slab hs), decide_eq_false (by omega)]

lemma findOwnerLoop_eq (hs : HasSlab s cache c slab) (hl : Locates s x slab) (hsub : ∀ y ∈ l, y ∈ s.cacheList) (hmem : cache ∈ l) :
    findOwnerLoop x s l = some (cache, slab) := by
  have hpos := ((h.placed hs).lt (h.geom hs)).1
  induction l with
  | nil => cases hmem
  | cons y l ih =>
    obtain ⟨hy, hrest⟩ := List.forall_mem_cons.mp hsub
    obtain ⟨cy, hcy, -⟩ := h.cache y hy
    rw [findOwnerLoop, findSlabInCache_eq hl hy hcy]
    simp only [Option.bind_eq_bind, Option.bind_some]
    by_cases hin : slab ∈ cy.slabs
    · obtain ⟨rfl, -⟩ := h.same_cache hs ⟨hy, hcy, hin⟩
      rw [if_pos hin, if_pos (by omega)]
    rw [if_neg hin, if_neg (by simp)]
    refine ih hrest ((List.mem_cons.mp hmem).resolve_left ?_)
    rintro rfl
    exact hin (Option.some.inj (hs.cache.symm.trans hcy) ▸ hs.slab)

lemma findOwnerLoop_none (hl : Locates s x 0)
    (hsub : ∀ y ∈ l, y ∈ s.cacheList) : findOwnerLoop x s l = some (0, 0) := by
  induction l with
  | nil => rfl
  | cons y l ih =>
    obtain ⟨hy, hrest⟩ := List.forall_mem_cons.mp hsub
    obtain ⟨cy, hcy, -⟩ := h.cache y hy
    rw [findOwnerLoop, findSlabInCache_eq hl hy hcy]
    simp only [Option.bind_eq_bind, Option.bind_some, ite_self, ne_eq, not_true_eq_false, if_false]
    exact ih hrest

end

end Find

section Free

variable {s : Kmem} {used : ℕ → Finset ℕ} {cache cache' slab slab' i x t : ℕ} {c c' : KmemCache}

lemma SlabOk.give {g : SlabGeom} {U : Finset ℕ} (h : SlabOk cache g slab sl U)
    (hg : g.Ok) (hi : i ∈ U) : SlabOk cache g slab { sl with
      links := update sl.links i sl.freeIdx
      freeIdx := i
      inuse := u32Dec sl.inuse } (U.erase i) := by
  have hmax : g.objectsPerSlab ≤ uint32Max := by
    have := hg.objs_lt
    rw [uint32Max]
    omega
  have hsub : U ⊆ range g.objectsPerSlab := fun j hj => mem_range.mpr (h.free.used_lt j hj)
  have hcard := card_le_card hsub
  have hpos : 0 < U.card := card_pos.mpr ⟨i, hi⟩
  refine ⟨h.placed, h.base, h.freelist, h.cache, h.free.push hi hmax, ?_⟩
  rw [card_range] at hcard
  show u32Dec sl.inuse = _
  rw [h.inuse, card_erase_of_mem hi, u32Dec_of_pos hpos (by have := hg.objs_lt; omega)]

lemma CacheOk.mem_lists (h : CacheOk slabs used cache c) (hi : i ∈ used slab) :
    slab ∉ c.slabsFree ∧ ((used slab).card ≠ c.objectsPerSlab → slab ∉ c.slabsFull) := by
  refine ⟨fun hf => ?_, fun hne hf => hne (h.full slab hf)⟩
  rw [h.free slab hf] at hi
  cases hi

lemma CacheOk.give (h : CacheOk slabs used cache c) (hmem : slab ∈ c.slabs) (hi : i ∈ used slab)
    (hok : SlabOk cache c.geom slab sl ((used slab).erase i))
    (hc' : c' = if (used slab).card = c.objectsPerSlab then
        (KmemCache.listDel slab { c with activeObjects := c.activeObjects - 1 }).addPartial slab
      else if sl.inuse = 0 then
        (KmemCache.listDel slab { c with activeObjects := c.activeObjects - 1 }).addFree slab
      else { c with activeObjects := c.activeObjects - 1 }) :
    c'.geom = c.geom ∧ (∀ x, x ∈ c'.slabs ↔ x ∈ c.slabs) ∧ (∀ x ∈ c'.slabsPartial, x ≠ slab → x ∈ c.slabsPartial) ∧
      (c.objectsPerSlab ≠ 1 → slab ∈ c'.slabsPartial → (used slab).erase i ≠ ∅) ∧
      CacheOk (Function.update slabs slab (some sl))
        (Function.update used slab ((used slab).erase i)) cache c' := by
  have hpos : 0 < (used slab).card := card_pos.mpr ⟨i, hi⟩
  have hcard := card_erase_of_mem hi
  have hle : (used slab).card ≤ c.activeObjects := by
    rw [h.active, ← add_sum_erase _ _ (List.mem_toFinset.mpr hmem)]
    exact Nat.le_add_right _ _
  have hactive : c.activeObjects - 1 + (used slab).card =
      c.activeObjects + ((used slab).erase i).card := by omega
  have hdel := mem_listDel h.nodup slab
  obtain ⟨hnotFree, hnotFull⟩ := h.mem_lists hi
  split_ifs at hc' with hfull hzero
  · subst hc'
    obtain ⟨hnodup, hiff⟩ := KmemCache.relist h.nodup hmem
      (show ((KmemCache.listDel slab { c with activeObjects := c.activeObjects - 1 }).addPartial
        slab).slabs.Perm (slab :: (c.listDel slab).slabs) from .refl _)
    refine ⟨rfl, hiff, fun x hx hne => ((hdel x).1.mp ((List.mem_cons.mp hx).resolve_left hne)).2,
      fun hn _ he => ?_, h.update hmem rfl hnodup hiff hok (fun x hx => ?_)
      (fun x hx => .inr ((hdel x).2.1.mp hx)) (fun x hx => .inr ((hdel x).2.2.mp hx)) hactive⟩
    · rw [he, card_empty] at hcard
      omega
    rcases List.mem_cons.mp hx with rfl | hx
    · exact .inl ⟨rfl, by omega⟩
    · exact .inr ((hdel x).1.mp hx)
  · subst hc'
    have hempty : (used slab).erase i = ∅ := card_eq_zero.mp (hok.inuse.symm.trans hzero)
    obtain ⟨hnodup, hiff⟩ := KmemCache.relist h.nodup hmem
      (show ((KmemCache.listDel slab { c with activeObjects := c.activeObjects - 1 }).addFree
        slab).slabs.Perm (slab :: (c.listDel slab).slabs) from
          (List.Perm.append_left _ List.perm_middle).trans List.perm_middle)
    refine ⟨rfl, hiff, fun x hx _ => ((hdel x).1.mp hx).2, fun _ hx => absurd rfl ((hdel slab).1.mp hx).1,
      h.update hmem rfl hnodup hiff hok (fun x hx => .inr ((hdel x).1.mp hx))
      (fun x hx => .inr ((hdel x).2.1.mp hx)) (fun x hx => ?_) hactive⟩
    rcases List.mem_cons.mp hx with rfl | hx
    · exact .inl ⟨rfl, hempty⟩
    · exact .inr ((hdel x).2.2.mp hx)
  subst hc'
  refine ⟨rfl, fun x => .rfl, fun x hx _ => hx, fun _ _ he => hzero ?_,
    h.update hmem rfl h.nodup (fun x => .rfl) hok (fun x hx => ?_)
    (fun x hx => .inr ⟨fun he => hnotFull hfull (he ▸ hx), hx⟩)
    (fun x hx => .inr ⟨fun he => hnotFree (he ▸ hx), hx⟩) hactive⟩
  · rw [hok.inuse, he, card_empty]
  by_cases he : x = slab
  · have hlt := h.part x hx
    rw [he] at hlt
    exact .inl ⟨he, by omega⟩
  · exact .inr ⟨he, hx⟩

/-- The object `x` is freed. -/
structure Freed (x : ℕ) (s : Kmem) (used : ℕ → Finset ℕ) (s' : Kmem) (used' : ℕ → Finset ℕ) : Prop where
  grows : Grows (fun _ => False) s s'
  busy : PartialBusy s used 0 → PartialBusy s' used' 0
  inv : KmemInv s' used'
  live : ∀ owner y, LiveIn s' used' owner y ↔ LiveIn s used owner y ∧ y ≠ x

section

variable (h : KmemInv s used)
include h

lemma KmemInv.giveObj (hs : HasSlab s cache c slab)
    (hi : i ∈ used slab) (hnot : c.geom.addr slab i ∉ s.cacheList) (hgeom : c'.geom = c.geom)
    (hiff : ∀ x, x ∈ c'.slabs ↔ x ∈ c.slabs)
    (hok : CacheOk (update s.slabs slab (some sl)) (update used slab ((used slab).erase i)) cache c')
    (hpart : ∀ x ∈ c'.slabsPartial, x ≠ slab → x ∈ c.slabsPartial)
    (hself : c.objectsPerSlab ≠ 1 → slab ∈ c'.slabsPartial → (used slab).erase i ≠ ∅) :
    Freed (c.geom.addr slab i) s used (s.change cache c' (update s.slabs slab (some sl)) s.pmm)
      (update used slab ((used slab).erase i)) := by
  have hlt := h.used_lt hs hi
  -- the objects in use afterwards
  have hused : ∀ y ∈ c.slabs, ∀ j < c.objectsPerSlab, (j ∈ update used slab ((used slab).erase i) y ↔
        j ∈ used y ∧ c.geom.addr y j ≠ c.geom.addr slab i) := by
    intro y hy j hj
    have hinj := h.addr_inj ⟨hs.listed, hs.cache, hy⟩ hs hj hlt
    by_cases he : y = slab
    · subst he
      rw [update_self, mem_erase]
      exact ⟨fun hm => ⟨hm.2, fun heq => hm.1 (hinj heq).2⟩, fun hm => ⟨fun heq => hm.2 (by rw [heq]), hm.1⟩⟩
    rw [update_of_ne he]
    exact ⟨fun hm => ⟨hm, fun heq => he (hinj heq).1⟩, fun hm => hm.1⟩
  have hch : CacheChange s used (update used slab ((used slab).erase i)) cache c c'
      (update s.slabs slab (some sl)) s.pmm := by
    refine ⟨hs.listed, hs.cache, hgeom, hok, h.pmm, .refl _, fun x hx _ => ?_,
      fun x hx hn => absurd ((hiff x).mp hx) hn, fun _ hj => .inl hj, fun x hx j hj hin => ?_⟩
    · have hne : x ≠ slab := fun he => hx (he ▸ hs.slab)
      exact ⟨update_of_ne hne .., update_of_ne hne ..⟩
    have hj' := h.used_lt ⟨hs.listed, hs.cache, hx⟩ hj
    exact ⟨(hiff x).mpr hx, (hused x hx j hj').mpr ⟨hj, fun heq => hnot (heq ▸ hin)⟩⟩
  have hgrow := hch.grows (fun x hx => (hiff x).mpr hx) (fun _ hj => .inl hj)
  refine ⟨⟨rfl, rfl, rfl, hgrow.slabs, hgrow.caches, fun _ hj => .inl hj, hgrow.pool⟩, fun hb => ?_, hch.inv h,
    fun owner x => ?_⟩
  · refine hch.partialBusy h hb (.inl rfl) fun hn x hx _ => ?_
    by_cases he : x = slab
    · rw [he, update_self]
      exact hself hn (he ▸ hx)
    have hs' : HasSlab s cache c x :=
      ⟨hs.listed, hs.cache, mem_slabs.mpr (.inl (hpart x hx he))⟩
    have hpos := ((h.placed hs').lt (h.geom hs')).1
    rw [update_of_ne he]
    exact hb cache c x hs' hn (hpart x hx he) (by omega)
  by_cases howner : owner = cache
  · subst howner
    rw [hch.liveIn_self]
    constructor
    · rintro ⟨y, hy, j, hj, rfl⟩
      have hy' := (hiff y).mp hy
      have hj' : j < c.objectsPerSlab := by
        obtain ⟨sl', -, hslab⟩ := hok.slab y hy
        rw [hgeom] at hslab
        exact hslab.free.used_lt j hj
      obtain ⟨hju, hne⟩ := (hused y hy' j hj').mp hj
      exact ⟨⟨c, y, j, ⟨hs.listed, hs.cache, hy'⟩, hju, rfl⟩, hne⟩
    rintro ⟨⟨c1, y, j, hs1, hj, rfl⟩, hne⟩
    obtain rfl : c = c1 := Option.some.inj (hs.cache.symm.trans hs1.cache)
    exact ⟨y, (hiff y).mpr hs1.slab, j, (hused y hs1.slab j (h.used_lt hs1 hj)).mpr ⟨hj, hne⟩, rfl⟩
  rw [hch.liveIn_of_ne h howner]
  refine ⟨fun hl => ⟨hl, ?_⟩, fun hl => hl.1⟩
  rintro rfl
  exact howner (h.liveIn_unique hl ⟨c, slab, i, hs, hi, rfl⟩)

lemma freeToSlab_spec (hs : HasSlab s cache c slab) (hi : i ∈ used slab)
    (hnot : c.geom.addr slab i ∉ s.cacheList) : ∃ s' used',
      freeToSlab cache slab (c.geom.addr slab i) s = some s' ∧ Freed (c.geom.addr slab i) s used s' used' := by
  have hcache := h.cacheOk hs.listed hs.cache
  obtain ⟨sl, hsl, hslab⟩ := hcache.slab slab hs.slab
  have hb := h.bounds hs (h.used_lt hs hi)
  have hlt := h.used_lt hs hi
  have hnlt := hcache.geom.objs_lt
  have hpos : 0 < (used slab).card := card_pos.mpr ⟨i, hi⟩
  have hactive : (if c.activeObjects > 0 then u64Dec c.activeObjects else c.activeObjects) =
      c.activeObjects - 1 := by
    have := h.active_lt hs.listed hs.cache
    split_ifs with h0
    · exact u64Dec_of_pos h0 (by omega)
    · omega
  have hidx : u32 (u64Sub (c.geom.addr slab i) sl.base / c.alignedSize) = i := by
    rw [hslab.base, u64Sub_of_le (by omega) (by omega), SlabGeom.addr, Nat.add_sub_cancel_left]
    show u32 (i * c.alignedSize / c.alignedSize) = i
    rw [Nat.mul_div_cancel _ (by omega), u32_of_lt (hlt.trans hnlt)]
  obtain ⟨hgeom, hiff, hpart, hself, hok⟩ :=
    hcache.give hs.slab hi (hslab.give hcache.geom hi) rfl
  refine ⟨_, _, ?_, h.giveObj hs hi hnot hgeom hiff hok hpart hself⟩
  unfold freeToSlab slabFreeObj
  simp only [Option.bind_eq_bind, hsl, Option.bind_some, hslab.inuse, hs.cache, hslab.cache, hidx,
    Kmem.setSlab, update_self, hactive, Kmem.setCache, Kmem.change,
    if_neg (show ¬ (used slab).card = 0 by omega)]
  split_ifs <;> rfl

/-- **`kmem_cache_free`** of an object in use, with any cache pointer: only this object is not in use
any more. -/
theorem kmemCacheFree_spec {owner : ℕ} (hin : cache ∈ s.cacheList)
    (hx : LiveIn s used owner x) (hnot : x ∉ s.cacheList) :
    ∃ s' used', kmemCacheFree cache x s = some s' ∧ Freed x s used s' used' := by
  have hx0 := hx.ne_zero
  obtain ⟨co, slab, i, hs, hi, rfl⟩ := hx
  obtain ⟨c, hc, hok⟩ := h.cache cache hin
  have hl := h.locates hs (h.used_lt hs hi)
  have hpos := ((h.placed hs).lt (h.geom hs)).1
  have hcache : cache ≠ 0 := fun he => h.ne_zero (he ▸ hin)
  have howner : owner ≠ 0 := fun he => h.ne_zero (he ▸ hs.listed)
  obtain ⟨s', used', hrun, hrest⟩ := freeToSlab_spec h hs hi hnot
  refine ⟨s', used', ?_, hrest⟩
  have h1 : 0 < c.alignedSize := hok.geom.aligned_pos
  have h2 : 0 < c.objectsPerSlab := hok.geom.objs_pos
  unfold kmemCacheFree
  rw [if_neg (by omega), hc]
  simp only [Option.bind_eq_bind, Option.bind_some, findSlabInCache_eq hl hin hc]
  rw [if_neg (by omega)]
  by_cases hmem : slab ∈ c.slabs
  · obtain ⟨rfl, rfl⟩ := h.same_cache hs ⟨hin, hc, hmem⟩
    rwa [if_pos hmem, if_pos (by omega)]
  rw [if_neg hmem, if_neg (by simp), findOwnerCacheForObj,
    findOwnerLoop_eq h hs hl (fun _ hy => hy) hs.listed, Option.bind_some]
  dsimp only
  rwa [if_neg (by omega)]

lemma kmemCacheFree_outside (hin : cache ∈ s.cacheList)
    (hx : ∀ cache c slab, HasSlab s cache c slab → ¬ (slab ≤ x ∧ x < slab + c.slabSize)) :
    kmemCacheFree cache x s = some s := by
  obtain ⟨c, hc, hok⟩ := h.cache cache hin
  have hl := h.locates_none hx
  unfold kmemCacheFree
  split_ifs
  · rfl
  rw [hc]
  simp only [Option.bind_eq_bind, Option.bind_some, findSlabInCache_eq hl hin hc, ite_self]
  split_ifs with h1 h2
  · rfl
  · exact absurd rfl h2
  rw [findOwnerCacheForObj, findOwnerLoop_none h hl fun _ hy => hy]
  rfl

end

lemma CacheOk.drop (h : CacheOk slabs used cache c) (hfree : slab ∈ c.slabsFree) (n m : ℕ) :
    CacheOk (Function.update slabs slab none) used cache
      { c.listDel slab with totalSlabs := n, totalObjects := m } := by
  have hdel := mem_listDel h.nodup slab
  have hmem : slab ∈ c.slabs := mem_slabs.mpr (.inr (.inr hfree))
  have hiff := mem_slabs_listDel h.nodup slab
  refine ⟨h.geom, nodup_listDel h.nodup slab, fun x hx => ?_,
    fun x hx => h.part x ((hdel x).1.mp hx).2, fun x hx => h.full x ((hdel x).2.1.mp hx).2,
    fun x hx => h.free x ((hdel x).2.2.mp hx).2, ?_⟩
  · obtain ⟨hne, hx⟩ := (hiff x).mp hx
    rw [update_of_ne hne]
    exact h.slab x hx
  have hset : (c.listDel slab).slabs.toFinset = c.slabs.toFinset.erase slab := by
    ext x
    rw [List.mem_toFinset, hiff, mem_erase, List.mem_toFinset]
  have hsum := h.active
  rw [← add_sum_erase _ _ (List.mem_toFinset.mpr hmem), h.free slab hfree, card_empty, zero_add] at hsum
  exact hsum.trans (congrArg (fun t => ∑ x ∈ t, (used x).card) hset.symm)

/-- The free slabs `l` have been given back. -/
structure Shrunk (cache : ℕ) (c : KmemCache) (l r : List ℕ) (s s' : Kmem) (used : ℕ → Finset ℕ) :
    Prop where
  inv : KmemInv s' used
  cacheList : s'.cacheList = s.cacheList
  sizeCaches : s'.sizeCaches = s.sizeCaches
  slabInitialized : s'.slabInitialized = s.slabInitialized
  other : ∀ cache₁, cache₁ ≠ cache → s'.caches cache₁ = s.caches cache₁
  self : ∃ n m, s'.caches cache = some { c with slabsFree := r, totalSlabs := n, totalObjects := m }
  busy : PartialBusy s used 0 → PartialBusy s' used 0
  live : ∀ owner x, LiveIn s' used owner x ↔ LiveIn s used owner x
  frames : ∀ j, s'.pmm.FrameFree j ↔ s.pmm.FrameFree j ∨ ∃ slab ∈ l, j ∈ c.geom.frames slab
  pool : ∀ j, s'.pmm.FrameFree j ∨ SlabFrame s' j → s.pmm.FrameFree j ∨ SlabFrame s j

lemma CacheOk.listDel_free (h : CacheOk slabs used cache c) (hfree : c.slabsFree = slab :: rest) :
    c.listDel slab = { c with slabsFree := rest } := by
  have hmem : slab ∈ c.slabsFree := hfree ▸ List.mem_cons_self
  have hnodup := h.nodup
  rw [KmemCache.slabs, List.nodup_append', List.nodup_append'] at hnodup
  have hpart : slab ∉ c.slabsPartial := fun hp => hnodup.2.2 hp (List.mem_append_right _ hmem)
  have hfull : slab ∉ c.slabsFull := fun hf => hnodup.2.1.2.2 hf hmem
  rw [KmemCache.listDel, List.erase_of_not_mem hpart, List.erase_of_not_mem hfull, hfree, List.erase_cons_head]

section

variable (h : KmemInv s used) (hin : cache ∈ s.cacheList) (hc : s.caches cache = some c)
include h hin hc

lemma slabDestroy_spec (hfree : c.slabsFree = slab :: rest) :
    ∃ s', slabDestroy cache slab (s.setCache cache (c.listDel slab)) = some s' ∧
      Shrunk cache c [slab] rest s s' used := by
  have hok := h.cacheOk hin hc
  have hmemFree : slab ∈ c.slabsFree := hfree ▸ List.mem_cons_self
  have hmem : slab ∈ c.slabs := mem_slabs.mpr (.inr (.inr hmemFree))
  have hs : HasSlab s cache c slab := ⟨hin, hc, hmem⟩
  obtain ⟨f, hf0, rfl, hlt⟩ := h.placed hs
  have hlt' : f + c.slabSize / pageSize ≤ 2 ^ 20 := hlt
  have hframes : c.geom.frames (frameAddr f) = Ico f (f + c.slabSize / pageSize) :=
    SlabGeom.frames_frameAddr c.geom f
  -- the frames
  have hsame := Pmm.sameFrames_unmarkSlabPages (f * 4096) (c.slabSize / pageSize) s.pmm
  obtain ⟨hinv, hlayout, hgives⟩ := Pmm.pmmFreePages_gives (hsame.inv h.pmm) hlt'
  have hgives' : ∀ j, (pmmFreePages (f * 4096) (c.slabSize / pageSize)
      (unmarkSlabPages (f * 4096) (c.slabSize / pageSize) s.pmm)).FrameFree j ↔
        s.pmm.FrameFree j ∨ j ∈ c.geom.frames (frameAddr f) := by
    intro j
    rw [hgives, hsame.frameFree, hframes, mem_Ico]
    refine or_congr_right ⟨fun hj => ⟨hj.1, hj.2.1⟩, fun hj => ⟨hj.1, hj.2, ?_⟩⟩
    exact hsame.sameLayout.managed (h.managed _ _ _ hs j (hframes ▸ mem_Ico.mpr hj))
  have hdel := hok.listDel_free hfree
  have hiff := mem_slabs_listDel hok.nodup (frameAddr f)
  have hparts := fun x => (mem_listDel hok.nodup (frameAddr f) x).1
  have hch : CacheChange s used used cache c { c.listDel (frameAddr f) with
      totalSlabs := u64Dec c.totalSlabs
      totalObjects := u64Sub c.totalObjects c.objectsPerSlab }
      (update s.slabs (frameAddr f) none)
      (pmmFreePages (f * 4096) (c.slabSize / pageSize)
        (unmarkSlabPages (f * 4096) (c.slabSize / pageSize) s.pmm)) := by
    refine ⟨hin, hc, rfl, hok.drop hmemFree .., hinv, hsame.sameLayout.trans hlayout, ?_, ?_, ?_, ?_⟩
    · intro x hx _
      exact ⟨update_of_ne (fun he => hx (by rwa [he])) .., rfl⟩
    · exact fun x hx hn => absurd ((hiff x).mp hx).2 hn
    · intro j hj
      refine ((hgives' j).mp hj).imp_right fun hj => ⟨_, hmem, fun hm => ((hiff _).mp hm).1 rfl, hj⟩
    intro x hx i hi _
    refine ⟨(hiff x).mpr ⟨?_, hx⟩, hi⟩
    rintro rfl
    rw [hok.free _ hmemFree] at hi
    cases hi
  refine ⟨s.change cache .., ?_, hch.inv h, rfl, rfl, rfl, fun _ hne => update_of_ne hne ..,
    ⟨u64Dec c.totalSlabs, u64Sub c.totalObjects c.objectsPerSlab, ?_⟩, fun hb => ?_, ?_, ?_,
    fun j hj => hch.pool hj⟩
  · have hlow : f ≤ 2 ^ 20 := by omega
    unfold slabDestroy
    simp only [Kmem.setCache, update_self, Option.bind_eq_bind, Option.bind_some,
      virtToPhys_frame hlow, KmemCache.listDel, Kmem.change, update_idem]
  · refine (update_self ..).trans ?_
    rw [hdel]
  · refine hch.partialBusy h hb (.inl rfl) fun hn x hx hne => ?_
    have hx' := ((hparts x).mp hx).2
    exact hb cache c x ⟨hin, hc, mem_slabs.mpr (.inl hx')⟩ hn hx' hne
  · intro owner x
    by_cases he : owner = cache
    · subst he
      rw [hch.liveIn_self]
      constructor
      · rintro ⟨y, hy, i, hi, rfl⟩
        exact ⟨c, y, i, ⟨hin, hc, ((hiff y).mp hy).2⟩, hi, rfl⟩
      rintro ⟨c1, y, i, hs1, hi, rfl⟩
      obtain rfl : c = c1 := Option.some.inj (hc.symm.trans hs1.cache)
      refine ⟨y, (hiff y).mpr ⟨?_, hs1.slab⟩, i, hi, rfl⟩
      rintro rfl
      rw [hok.free _ hmemFree] at hi
      cases hi
    · exact hch.liveIn_of_ne h he
  intro j
  exact (hgives' j).trans (by simp)

lemma shrinkLoop_spec :
    ∃ s', shrinkLoop cache c.slabsFree s = some s' ∧ Shrunk cache c c.slabsFree [] s s' used := by
  generalize hl : c.slabsFree = l
  induction l generalizing s c with
  | nil =>
    exact ⟨s, rfl, h, rfl, rfl, rfl, fun _ _ => rfl, ⟨c.totalSlabs, c.totalObjects, by rw [hc, ← hl]⟩,
      id, fun _ _ => .rfl, fun j => by simp, fun _ hj => hj⟩
  | cons slab rest ih =>
    obtain ⟨s1, hrun1, h1⟩ := slabDestroy_spec h hin hc hl
    obtain ⟨n1, m1, hc1⟩ := h1.self
    obtain ⟨s2, hrun2, h2⟩ := ih h1.inv (h1.cacheList ▸ hin) hc1 rfl
    refine ⟨s2, ?_, h2.inv, h2.cacheList.trans h1.cacheList, h2.sizeCaches.trans h1.sizeCaches,
      h2.slabInitialized.trans h1.slabInitialized,
      fun cache1 hne => (h2.other cache1 hne).trans (h1.other cache1 hne), h2.self,
      fun hb => h2.busy (h1.busy hb), fun owner x => (h2.live owner x).trans (h1.live owner x),
      fun j => ?_, fun j hj => h1.pool j (h2.pool j hj)⟩
    · rw [shrinkLoop, hc]
      simp only [Option.bind_eq_bind, Option.bind_some, hrun1]
      exact hrun2
    rw [h2.frames, h1.frames, or_assoc]
    refine or_congr_right ?_
    simp only [List.mem_cons, exists_eq_or_imp, List.not_mem_nil, or_false, exists_eq_left]
    exact .rfl

/-- **`kmem_cache_shrink`** gives the frames of all free slabs back and affects no object in use. -/
theorem kmemCacheShrink_spec : ∃ s', kmemCacheShrink cache s = some (c.slabsFree.length, s') ∧
      Shrunk cache c c.slabsFree [] s s' used := by
  obtain ⟨s', hrun, h'⟩ := shrinkLoop_spec h hin hc
  refine ⟨s', ?_, h'⟩
  unfold kmemCacheShrink
  simp only [hc, Option.bind_eq_bind, Option.bind_some, hrun]

end

end Free

end Obelisk
