import Obelisk.Slab.Free

/-!
# Creating caches

`kmem_cache_create` rounds the object size up to the alignment, chooses the size of the slabs and
computes how many objects fit.
-/

namespace Obelisk

open KLib Function Finset Option List

variable {a o x : ℕ} {l : List ℕ}

def CreateFits (size align : ℕ) (flags : BitVec 32) : Prop :=
  size + (cacheAlign align flags - 1) < 2 ^ 64 ∧
    alignUp size (cacheAlign align flags) + sizeofSlab + (pageSize - 1) < 2 ^ 64

instance (size align : ℕ) (flags : BitVec 32) : Decidable (CreateFits size align flags) :=
  inferInstanceAs (Decidable (_ ∧ _))

lemma cacheAlign_two_pow (k : ℕ) (flags : BitVec 32) :
    ∃ m, cacheAlign (2 ^ k) flags = 2 ^ m ∧ 3 ≤ m ∧ m ≤ max k 6 := by
  have hmono : ∀ {i : ℕ}, 2 ^ k < 2 ^ i ↔ k < i := Nat.pow_lt_pow_iff_right (by norm_num)
  have h8 : 2 ^ k < 8 ↔ k < 3 := hmono (i := 3)
  have h64 : 2 ^ k < 64 ↔ k < 6 := hmono (i := 6)
  unfold cacheAlign
  dsimp only
  by_cases hk : 2 ^ k < 8
  · rw [if_pos hk]
    split_ifs
    · exact ⟨6, rfl, by norm_num, le_max_right ..⟩
    · exact ⟨3, rfl, le_rfl, by omega⟩
  rw [if_neg hk]
  split_ifs
  · by_cases h : 2 ^ k < 64
    · exact ⟨6, max_eq_right (by omega), by norm_num, le_max_right ..⟩
    · exact ⟨k, max_eq_left (by omega), by omega, le_max_left ..⟩
  · exact ⟨k, rfl, by omega, le_max_left ..⟩

lemma alignUp_spec {m : ℕ} (h : x + (2 ^ m - 1) < 2 ^ 64) (hm : m ≤ 64) :
    2 ^ m ∣ alignUp x (2 ^ m) ∧ x ≤ alignUp x (2 ^ m) ∧ alignUp x (2 ^ m) < x + 2 ^ m := by
  have hpos : 0 < 2 ^ m := Nat.two_pow_pos m
  have hdiv := Nat.div_add_mod' (x + (2 ^ m - 1)) (2 ^ m)
  have hlt := Nat.mod_lt (x + (2 ^ m - 1)) hpos
  rw [alignUp_two_pow h hm]
  exact ⟨Dvd.intro_left _ rfl, by omega, by omega⟩

lemma cacheSlabSize_eq (h : a + sizeofSlab + (pageSize - 1) < 2 ^ 64) :
    cacheSlabSize a = if a ≤ 512 then 4096 else if a ≤ 4096 then 8192
      else (a + 48 + 4095) / 4096 * 4096 := by
  rw [sizeofSlab, pageSize] at h
  have hup : alignUp (u64 (a + 48)) 4096 = (a + 48 + 4095) / 4096 * 4096 := by
    rw [u64_of_lt (by omega)]
    exact alignUp_two_pow (k := 12) (by omega) (by norm_num)
  rw [cacheSlabSize, sizeofSlab, pageSize, hup]

lemma calcObjectsPerSlab_spec (h : a + sizeofSlab + (pageSize - 1) < 2 ^ 64) (ha : 0 < a) (h8 : a % 8 = 0) :
    calcObjectsPerSlab a (cacheSlabSize a) < 2 ^ 32 ∧ cacheSlabSize a % 4096 = 0 ∧
      sizeofSlab + calcObjectsPerSlab a (cacheSlabSize a) * (a + 4) ≤ cacheSlabSize a ∧
      (calcObjectsPerSlab a (cacheSlabSize a) = 0 ↔ 4096 < a ∧ (a + 48) % 4096 = 0) := by
  have heq := cacheSlabSize_eq h
  rw [sizeofSlab, pageSize] at h
  have hsize : 4096 ≤ cacheSlabSize a ∧ cacheSlabSize a < 2 ^ 64 ∧ cacheSlabSize a % 4096 = 0 := by
    rw [heq]
    split_ifs <;> omega
  have hbound : (cacheSlabSize a - 48) / (a + 4) < 2 ^ 32 := by
    rw [Nat.div_lt_iff_lt_mul (by omega), heq]
    split_ifs <;> omega
  have hn : calcObjectsPerSlab a (cacheSlabSize a) = (cacheSlabSize a - 48) / (a + 4) := by
    rw [calcObjectsPerSlab, sizeofSlab, u64Sub_of_le (by omega) (by omega), u64_of_lt (by omega), u32_of_lt hbound]
  refine ⟨hn ▸ hbound, hsize.2.2, ?_, ?_⟩
  · have := Nat.div_mul_le_self (cacheSlabSize a - 48) (a + 4)
    rw [hn, sizeofSlab]
    omega
  rw [hn, Nat.div_eq_zero_iff_lt (by omega), heq]
  split_ifs <;> omega

lemma newCache_geom {size k : ℕ} {flags : BitVec 32} (hk : k < 64) (hsize : 1 ≤ size)
    (hfit : CreateFits size (2 ^ k) flags) :
    cacheAlign (2 ^ k) flags ∣ (newCache size (2 ^ k) flags).alignedSize ∧
      ((newCache size (2 ^ k) flags).objectsPerSlab = 0 ↔ 4096 < (newCache size (2 ^ k) flags).alignedSize ∧
          ((newCache size (2 ^ k) flags).alignedSize + 48) % 4096 = 0) ∧
      ((newCache size (2 ^ k) flags).objectsPerSlab ≠ 0 → (newCache size (2 ^ k) flags).geom.Ok) := by
  obtain ⟨m, hm, hm3, hmax⟩ := cacheAlign_two_pow k flags
  rw [CreateFits, hm] at hfit
  obtain ⟨hdvd, hle, -⟩ := alignUp_spec hfit.1 (by omega)
  have h8 : alignUp size (2 ^ m) % 8 = 0 :=
    Nat.mod_eq_zero_of_dvd ((pow_dvd_pow 2 hm3).trans hdvd)
  obtain ⟨h1, h2, h3, h4⟩ := calcObjectsPerSlab_spec hfit.2 (by omega) h8
  simp only [newCache, hm, KmemCache.geom]
  exact ⟨hdvd, h4, fun hn => ⟨hsize.trans hle, pos_of_ne_zero hn, h1, h3, h2⟩⟩

section KmemKeeps

variable {s s' s₁ s2 s3 : Kmem} {used : ℕ → Finset ℕ} {cache slab x f : ℕ} {c : KmemCache}

/-- Caches stay and keep their layout, and no frame enters the slabs and the free frames from
elsewhere. -/
structure KmemKeeps (s s' : Kmem) : Prop where
  sizeCaches : s'.sizeCaches = s.sizeCaches
  slabInitialized : s'.slabInitialized = s.slabInitialized
  caches : ∀ cache ∈ s.cacheList, ∀ c, s.caches cache = some c →
    cache ∈ s'.cacheList ∧ ∃ c', s'.caches cache = some c' ∧ c'.geom = c.geom
  pool : ∀ j, s'.pmm.FrameFree j ∨ SlabFrame s' j → s.pmm.FrameFree j ∨ SlabFrame s j

lemma KmemKeeps.refl (s : Kmem) : KmemKeeps s s :=
  ⟨rfl, rfl, fun _ hin c hc => ⟨hin, c, hc, rfl⟩, fun _ hj => hj⟩

lemma KmemKeeps.trans (h1 : KmemKeeps s₁ s2) (h2 : KmemKeeps s2 s3) : KmemKeeps s₁ s3 := by
  refine ⟨h2.sizeCaches.trans h1.sizeCaches, h2.slabInitialized.trans h1.slabInitialized,
    fun cache hin c hc => ?_, fun j hj => h1.pool j (h2.pool j hj)⟩
  obtain ⟨hin2, c2, hc2, hg2⟩ := h1.caches cache hin c hc
  obtain ⟨hin3, c3, hc3, hg3⟩ := h2.caches cache hin2 c2 hc2
  exact ⟨hin3, c3, hc3, hg3.trans hg2⟩

lemma Grows.keeps {C : ℕ → Prop} (h : Grows C s s') : KmemKeeps s s' :=
  ⟨h.sizeCaches, h.slabInitialized, fun cache hin c hc => ⟨h.cacheList ▸ hin, h.caches cache hin c hc⟩, h.pool⟩

lemma Shrunk.keeps {r : List ℕ} (h : Shrunk cache c l r s s' used)
    (hc : s.caches cache = some c) : KmemKeeps s s' := by
  refine ⟨h.sizeCaches, h.slabInitialized, fun cache1 hin c1 hc1 => ⟨h.cacheList ▸ hin, ?_⟩, h.pool⟩
  by_cases he : cache1 = cache
  · subst he
    obtain rfl : c = c1 := some.inj (hc.symm.trans hc1)
    obtain ⟨n, m, hc'⟩ := h.self
    exact ⟨_, hc', rfl⟩
  · exact ⟨c1, (h.other cache1 he).trans hc1, rfl⟩

def LargeAt (s : Kmem) (x : ℕ) : Prop :=
  ∃ f, x = frameAddr f + 8 ∧ f < 2 ^ 20 ∧ ¬ (s.pmm.FrameFree f ∨ SlabFrame s f)

lemma KmemKeeps.largeAt (h : KmemKeeps s s') (hx : LargeAt s x) : LargeAt s' x := by
  obtain ⟨f, hx, hlt, hnot⟩ := hx
  exact ⟨f, hx, hlt, fun hj => hnot (h.pool f hj)⟩

lemma KmemInv.outside (h : KmemInv s used) (hf : ¬ SlabFrame s f) (h1 : frameAddr f ≤ x)
    (h2 : x < frameAddr f + 4096) (hs : HasSlab s cache c slab) :
    ¬ (slab ≤ x ∧ x < slab + c.slabSize) := by
  rintro ⟨h3, h4⟩
  obtain ⟨g, -, rfl, -⟩ := h.placed hs
  have hpages : c.slabSize % 4096 = 0 := (h.geom hs).pages
  refine hf ⟨cache, c, _, hs, ?_⟩
  rw [SlabGeom.frames_frameAddr, mem_Ico]
  rw [frameAddr] at h1 h2 h3 h4
  show g ≤ f ∧ f < g + c.slabSize / 4096
  omega

end KmemKeeps

section Kmalloc

variable {s s' : Kmem} {used : ℕ → Finset ℕ} {size p : ℕ}

def IsSizeCache (s : Kmem) (cache : ℕ) : Prop := ∃ i < sizeClasses.length, cache = s.sizeCaches i

lemma findSizeClass_lt {i : ℕ} (h : findSizeClass size = some i) : i < sizeClasses.length :=
  (findIdx?_eq_some_iff_findIdx_eq.mp h).1

/-- What `kmalloc` returns: null, an object or whole pages. -/
inductive Kmalloced (size : ℕ) (s : Kmem) (used : ℕ → Finset ℕ) :
    ℕ → Kmem → (ℕ → Finset ℕ) → Prop
  | null {s' : Kmem} {used' : ℕ → Finset ℕ} : Grows (IsSizeCache s) s s' →
      (∀ o x, LiveIn s' used' o x ↔ LiveIn s used o x) → Kmalloced size s used 0 s' used'
  | obj {i p : ℕ} {s' : Kmem} {used' : ℕ → Finset ℕ} : findSizeClass size = some i → p ≠ 0 →
      Grows (IsSizeCache s) s s' → (∀ o, ¬ LiveIn s used o p) →
      (∀ o x, LiveIn s' used' o x ↔ LiveIn s used o x ∨ (o = s.sizeCaches i ∧ x = p)) →
      Kmalloced size s used p s' used'
  | large {f : ℕ} {s' : Kmem} : findSizeClass size = none → KmemKeeps s s' →
      s'.cacheList = s.cacheList → (∀ o x, LiveIn s' used o x ↔ LiveIn s used o x) →
      s.pmm.FrameFree f → LargeAt s' (frameAddr f + 8) →
      Kmalloced size s used (frameAddr f + 8) s' used

lemma partialBusy_setPmm {pmm' : Pmm} {sizes' : ℕ → ℕ} (hb : PartialBusy s used 0) :
    PartialBusy { s with pmm := pmm', sizes := sizes' } used 0 :=
  fun cache c slab hs => hb cache c slab ⟨hs.listed, hs.cache, hs.slab⟩

section

variable (h : KmemInv s used)
include h

lemma kmallocLarge_spec (hcls : findSizeClass size = none) :
    (PartialBusy s used 0 → PartialBusy (kmallocLarge size s).2 used 0) ∧ KmemInv (kmallocLarge size s).2 used ∧
      Kmalloced size s used (kmallocLarge size s).1 (kmallocLarge size s).2 used := by
  unfold kmallocLarge
  split
  · exact ⟨id, h, .null (.refl _ s) fun _ _ => .rfl⟩
  rename_i pages _
  obtain ⟨hinv, hlayout, A, hA, hfree, hcase⟩ := Pmm.pmmAllocPages_takes h.pmm pages
  generalize pmmAllocPages pages s.pmm = r at hinv hlayout hfree hcase ⊢
  obtain ⟨phys, pmm1⟩ := r
  dsimp only at hinv hlayout hfree hcase ⊢
  have hsub : ∀ j, pmm1.FrameFree j → s.pmm.FrameFree j := fun j hj => ((hfree j).mp hj).1
  rcases hcase with ⟨rfl, hempty⟩ | ⟨f, rfl, hf0, hn, hlt, rfl⟩
  · have hsame : ∀ j, pmm1.FrameFree j ↔ s.pmm.FrameFree j := by
      intro j
      rcases hempty with rfl | h0
      · rw [hfree]
        simp
      · exact absurd (hA 0 h0) h.zero
    rw [if_pos rfl]
    exact ⟨partialBusy_setPmm, h.setPmm s.sizes hinv hlayout hsub, .null (.setPmm s.sizes hsame) liveIn_setPmm⟩
  have hmem : f ∈ Finset.Ico f (f + pages) := mem_Ico.mpr ⟨le_rfl, by omega⟩
  have haddr : physToVirt (f * 4096) = frameAddr f := physToVirt_frame (by omega)
  have hptr : u64 (frameAddr f + 8) = frameAddr f + 8 :=
    u64_of_lt (by rw [frameAddr, kernelPhysMapBase]; omega)
  rw [if_neg (by omega), haddr, hptr]
  refine ⟨partialBusy_setPmm, h.setPmm _ hinv hlayout hsub, .large hcls ?_ rfl liveIn_setPmm
    (hA f hmem) ⟨f, rfl, by omega, ?_⟩⟩
  · exact ⟨rfl, rfl, fun _ hin c hc => ⟨hin, c, hc, rfl⟩, fun j hj => hj.imp (hsub j) (slabFrame_setPmm j).mp⟩
  rintro (hf | hf)
  · exact ((hfree f).mp hf).2 hmem
  obtain ⟨cache, c, slab, hs, hj⟩ := (slabFrame_setPmm f).mp hf
  exact h.taken cache c slab hs f hj (hA f hmem)

lemma kmalloc_spec (hinit : s.slabInitialized = true) (size : ℕ) :
    ∃ p s' used', kmalloc size s = some (p, s') ∧ (PartialBusy s used 0 → PartialBusy s' used' 0) ∧
      KmemInv s' used' ∧ Kmalloced size s used p s' used' := by
  unfold kmalloc
  rw [hinit, Bool.not_true, if_neg Bool.false_ne_true]
  split_ifs with h0
  · exact ⟨0, s, used, rfl, id, h, .null (.refl _ s) fun _ _ => .rfl⟩
  cases hcls : findSizeClass size with
  | none => exact ⟨_, _, used, rfl, kmallocLarge_spec h hcls⟩
  | some i =>
    have hi := findSizeClass_lt hcls
    obtain ⟨obj, s', used', hrun, hgrow, hbusy, hinv, hcase⟩ :=
      kmemCacheAlloc_spec h (h.sizeCaches hinit i hi)
    have hgrow' : Grows (IsSizeCache s) s s' := hgrow.mono fun x hx => ⟨i, hi, hx⟩
    refine ⟨obj, s', used', hrun, hbusy, hinv, ?_⟩
    rcases hcase with ⟨rfl, -, hlive⟩ | ⟨hfresh, hlive⟩
    · exact .null hgrow' hlive
    have hne : obj ≠ 0 := ((hlive (s.sizeCaches i) obj).mpr (.inr ⟨rfl, rfl⟩)).ne_zero
    exact .obj hcls hne hgrow' hfresh hlive

lemma kfree_spec {owner : ℕ} (hinit : s.slabInitialized = true)
    (hx : LiveIn s used owner x) (hnot : x ∉ s.cacheList) :
    ∃ s' used', kfree x s = some s' ∧ Freed x s used s' used' := by
  have hx0 := hx.ne_zero
  have hin := h.sizeCaches hinit 0 (by decide)
  unfold kfree
  rw [hinit, if_neg (by simp [hx0])]
  exact kmemCacheFree_spec h hin hx hnot

lemma kfree_large (hinit : s.slabInitialized = true) (hx : LargeAt s x) : kfree x s = some s := by
  obtain ⟨f, rfl, -, hnot⟩ := hx
  have hin := h.sizeCaches hinit 0 (by decide)
  unfold kfree
  rw [hinit, if_neg (by simp)]
  exact kmemCacheFree_outside h hin fun cache c slab hs =>
    h.outside (fun hf => hnot (.inr hf)) (by omega) (by omega) hs

end

end Kmalloc

/-! ## New caches -/

section Create

variable {s s' : Kmem} {used used' : ℕ → Finset ℕ} {cache p size k : ℕ} {c : KmemCache} {flags : BitVec 32}

def Kmem.addCache (cache : ℕ) (c : KmemCache) (s : Kmem) : Kmem :=
  { s.setCache cache c with cacheList := cache :: s.cacheList }

lemma hasSlab_addCache (hnew : cache ∉ s.cacheList) (hslabs : c.slabs = []) (cache1 : ℕ)
    (c1 : KmemCache) (slab : ℕ) :
    HasSlab (s.addCache cache c) cache1 c1 slab ↔ HasSlab s cache1 c1 slab := by
  constructor
  · rintro ⟨hin, hc, hs⟩
    replace hc : update s.caches cache (some c) cache1 = some c1 := hc
    by_cases he : cache1 = cache
    · subst he
      rw [update_self] at hc
      cases hc
      rw [hslabs] at hs
      cases hs
    rw [update_of_ne he] at hc
    exact ⟨(mem_cons.mp hin).resolve_left he, hc, hs⟩
  rintro ⟨hin, hc, hs⟩
  have he : cache1 ≠ cache := fun he => hnew (he ▸ hin)
  exact ⟨mem_cons_of_mem _ hin, (update_of_ne he ..).trans hc, hs⟩

section

variable (h : KmemInv s used)
include h

lemma KmemInv.addCache (hnew : cache ∉ s.cacheList) (h0 : cache ≠ 0)
    (hg : c.geom.Ok) (hslabs : c.slabs = []) (hactive : c.activeObjects = 0)
    (hhome : ∃ owner, LiveIn s used owner cache) :
    KmemInv (s.addCache cache c) used ∧ KmemKeeps s (s.addCache cache c) ∧
      (PartialBusy s used 0 → PartialBusy (s.addCache cache c) used 0) ∧
      ∀ o x, LiveIn (s.addCache cache c) used o x ↔ LiveIn s used o x := by
  have hslab := hasSlab_addCache hnew hslabs
  have hlive : ∀ o x, LiveIn (s.addCache cache c) used o x ↔ LiveIn s used o x := fun o x =>
    exists₃_congr fun c1 slab i => and_congr_left' (hslab o c1 slab)
  have hframe : ∀ j, SlabFrame (s.addCache cache c) j ↔ SlabFrame s j := fun j =>
    exists₃_congr fun cache1 c1 slab => and_congr_left' (hslab cache1 c1 slab)
  obtain ⟨e, he⟩ := h.early
  have hcaches : ∀ cache1 ∈ s.cacheList, (s.addCache cache c).caches cache1 = s.caches cache1 :=
    fun cache1 hin => update_of_ne (fun he : cache1 = cache => hnew (he ▸ hin)) _ _
  obtain ⟨hpart, hfull, hfree⟩ : c.slabsPartial = [] ∧ c.slabsFull = [] ∧ c.slabsFree = [] := by
    simpa [KmemCache.slabs] using hslabs
  have hok : CacheOk s.slabs used cache c := by
    refine ⟨hg, by rw [hslabs]; exact nodup_nil, ?_, ?_, ?_, ?_, ?_⟩
    · rw [hslabs]
      exact fun _ hx => absurd hx not_mem_nil
    · rw [hpart]
      exact fun _ hx => absurd hx not_mem_nil
    · rw [hfull]
      exact fun _ hx => absurd hx not_mem_nil
    · rw [hfree]
      exact fun _ hx => absurd hx not_mem_nil
    · rw [hactive, hslabs, toFinset_nil, sum_empty]
  refine ⟨⟨h.pmm, h.zero, ?_, ?_, ?_, ?_, ?_, ⟨e, he.start, he.stop, he.lt, he.start_le, he.le_stop,
    he.taken, ?_⟩, ?_, ?_⟩, ⟨rfl, rfl, ?_, ?_⟩, ?_, hlive⟩
  · exact fun hin => (mem_cons.mp hin).elim (fun he => h0 he.symm) h.ne_zero
  · intro cache1 hin
    rcases mem_cons.mp hin with rfl | hin
    · exact ⟨c, update_self .., hok⟩
    obtain ⟨c1, hc1, hok1⟩ := h.cache cache1 hin
    exact ⟨c1, (hcaches cache1 hin).trans hc1, hok1⟩
  · exact fun _ _ _ _ _ _ hs hs' hne =>
      h.apart _ _ _ _ _ _ ((hslab ..).mp hs) ((hslab ..).mp hs') hne
  · exact fun _ _ _ hs => h.taken _ _ _ ((hslab ..).mp hs)
  · exact fun _ _ _ hs => h.managed _ _ _ ((hslab ..).mp hs)
  · exact fun _ _ _ hs => he.apart _ _ _ ((hslab ..).mp hs)
  · intro cache1 hin
    rcases mem_cons.mp hin with rfl | hin
    · exact .inr (hhome.imp fun owner hl => (hlive owner _).mpr hl)
    · exact (h.home cache1 hin).imp_right (Exists.imp fun owner hl => (hlive owner _).mpr hl)
  · exact fun hinit i hi => mem_cons_of_mem _ (h.sizeCaches hinit i hi)
  · exact fun cache1 hin c1 hc1 =>
      ⟨mem_cons_of_mem _ hin, c1, (hcaches cache1 hin).trans hc1, rfl⟩
  · exact fun j hj => hj.imp_right (hframe j).mp
  · exact fun hb cache1 c1 slab hs => hb cache1 c1 slab ((hslab ..).mp hs)

lemma KmemInv.live_frame (hx : LiveIn s used o x) :
    ∃ f, SlabFrame s f ∧ frameAddr f ≤ x ∧ x < frameAddr f + 4096 := by
  obtain ⟨c, slab, i, hs, hi, rfl⟩ := hx
  have hb := h.bounds hs (h.used_lt hs hi)
  obtain ⟨g, -, hg, -⟩ := h.placed hs
  have hx : kernelPhysMapBase ≤ c.geom.addr slab i := by
    rw [frameAddr] at hg
    omega
  refine ⟨(c.geom.addr slab i - kernelPhysMapBase) / 4096, ?_, ?_, ?_⟩
  · by_contra hf
    refine h.outside (x := c.geom.addr slab i) hf ?_ ?_ hs ⟨by omega, by omega⟩ <;>
      rw [frameAddr] <;> omega
  · rw [frameAddr]
    omega
  rw [frameAddr]
  omega

lemma KmemInv.not_largeAt (hx : LiveIn s used o x) : ¬ LargeAt s x := by
  rintro ⟨f, rfl, -, hnot⟩
  obtain ⟨g, hg, h1, h2⟩ := h.live_frame hx
  obtain rfl : f = g := by
    rw [frameAddr, frameAddr] at h1 h2
    omega
  exact hnot (.inr hg)

lemma KmemInv.not_listed (h' : KmemInv s' used') (hk : KmemKeeps s s')
    (hfresh : ∀ o, ¬ LiveIn s used o p) (hlive : LiveIn s' used' o p) : p ∉ s.cacheList := by
  intro hin
  rcases h.home p hin with ⟨hlow, hhigh⟩ | ⟨o, hl⟩
  · obtain ⟨e, he⟩ := h.early
    obtain ⟨f, hf, h1, h2⟩ := h'.live_frame hlive
    have hle := he.le_stop
    rw [he.start, frameAddr] at hlow
    rw [he.stop, frameAddr] at hle
    rw [frameAddr] at h1 h2
    have hmem : f ∈ Finset.Ico e (e + 256) := mem_Ico.mpr (by omega)
    rcases hk.pool f (.inr hf) with hfree | ⟨cache, c, slab, hs, hj⟩
    · exact he.taken f hmem hfree
    · exact disjoint_left.mp (he.apart cache c slab hs) hj hmem
  · exact hfresh o hl

end

/-- What `kmem_cache_create` does once `kmalloc` has returned `p`: the descriptor is an object of a
size class, and it is filled in unless no object fits into a slab. -/
inductive Created (c : KmemCache) (s s₁ : Kmem) (used : ℕ → Finset ℕ) (p : ℕ) :
    ℕ → Kmem → (ℕ → Finset ℕ) → Prop
  | noMemory {used' : ℕ → Finset ℕ} : p = 0 → (∀ o x, LiveIn s₁ used' o x ↔ LiveIn s used o x) →
      Created c s s₁ used p 0 s₁ used'
  | noObjects {used' : ℕ → Finset ℕ} : p ≠ 0 → c.objectsPerSlab = 0 → (∀ o, ¬ LiveIn s used o p) →
      (∀ o x, LiveIn s₁ used' o x ↔ LiveIn s used o x ∨ (o = s.sizeCaches 5 ∧ x = p)) →
      Created c s s₁ used p 0 s₁ used'
  | ok {used' : ℕ → Finset ℕ} : p ≠ 0 → c.objectsPerSlab ≠ 0 → p ∉ s.cacheList → (∀ o, ¬ LiveIn s used o p) →
      (∀ o x, LiveIn (s₁.addCache p c) used' o x ↔ LiveIn s used o x ∨ (o = s.sizeCaches 5 ∧ x = p)) →
      Created c s s₁ used p p (s₁.addCache p c) used'

lemma kmemCacheCreate_spec (h : KmemInv s used) (hinit : s.slabInitialized = true) (hk : k < 64)
    (hsize : 1 ≤ size) (hfit : CreateFits size (2 ^ k) flags) :
    ∃ p s₁ cache s' used', kmalloc sizeofKmemCache s = some (p, s₁) ∧
      kmemCacheCreate size (2 ^ k) flags s = some (cache, s') ∧ KmemKeeps s s' ∧
      s₁.cacheList = s.cacheList ∧
      (PartialBusy s used 0 → PartialBusy s' used' 0) ∧ KmemInv s' used' ∧
      Created (newCache size (2 ^ k) flags) s s₁ used p cache s' used' := by
  obtain ⟨-, -, hok⟩ := newCache_geom hk hsize hfit
  obtain ⟨p, s₁, used1, hrun, hbusy, hinv, hres⟩ := kmalloc_spec h hinit sizeofKmemCache
  unfold kmemCacheCreate
  rw [hrun]
  simp only [bind_eq_bind, bind_some]
  cases hres with
  | null hgrow hlive =>
    rw [if_pos rfl]
    exact ⟨0, s₁, 0, s₁, used1, rfl, rfl, hgrow.keeps, hgrow.cacheList, hbusy, hinv, .noMemory rfl hlive⟩
  | large hcls => exact absurd hcls (by decide)
  | obj hcls hp hgrow hfresh hlive =>
    obtain rfl := some.inj (hcls.symm.trans (show findSizeClass sizeofKmemCache = some 5 by decide))
    rw [if_neg hp]
    split_ifs with hn
    · exact ⟨p, s₁, 0, s₁, used1, rfl, rfl, hgrow.keeps, hgrow.cacheList, hbusy, hinv,
        .noObjects hp hn hfresh hlive⟩
    have hself : LiveIn s₁ used1 (s.sizeCaches 5) p := (hlive ..).mpr (.inr ⟨rfl, rfl⟩)
    have hnot : p ∉ s.cacheList := h.not_listed hinv hgrow.keeps hfresh hself
    obtain ⟨hinv', hkeep', hbusy', hlive'⟩ := hinv.addCache (c := newCache size (2 ^ k) flags)
      (hgrow.cacheList ▸ hnot) hp (hok hn) rfl rfl ⟨_, hself⟩
    exact ⟨p, s₁, p, s₁.addCache p _, used1, rfl, rfl, hgrow.keeps.trans hkeep', hgrow.cacheList,
      fun hb => hbusy' (hbusy hb), hinv',
      .ok hp hn hnot hfresh fun o x => (hlive' o x).trans (hlive o x)⟩

end Create

/-- The state while `kmalloc_init` creates the caches of the size classes: `i` of them exist, with
their descriptors in the early heap. -/
structure Booting (e i : ℕ) (s : Kmem) : Prop where
  pmm : s.pmm.Inv
  zero : ¬ s.pmm.FrameFree 0
  taken : ∀ j ∈ Finset.Ico e (e + 256), ¬ s.pmm.FrameFree j
  lt : e + 256 ≤ 2 ^ 20
  start : s.earlyHeapStart = frameAddr e
  stop : s.earlyHeapEnd = frameAddr (e + 256)
  current : s.earlyHeapCurrent = frameAddr e + 160 * i
  init : s.slabInitialized = false
  caches : ∀ cache ∈ s.cacheList, (frameAddr e ≤ cache ∧ cache < frameAddr e + 160 * i) ∧
    ∃ c, s.caches cache = some c ∧ c.geom.Ok ∧ c.slabs = [] ∧ c.activeObjects = 0
  sizes : ∀ j < i, s.sizeCaches j ∈ s.cacheList

section Init

variable {s : Kmem} {pmm : Pmm} {e i size : ℕ}

lemma earlyHeapInit_spec (hinv : pmm.Inv) (h0 : ¬ pmm.FrameFree 0) (hpages : (pmmAllocPages 256 pmm).1 ≠ 0) :
    ∃ e s, earlyHeapInit (kmemStatic pmm) = some s ∧ Booting e 0 s := by
  obtain ⟨hinv', -, A, hA, hfree, hcase⟩ := Pmm.pmmAllocPages_takes hinv 256
  rcases hcase with ⟨hz, -⟩ | ⟨f, hf, hf0, -, hlt, rfl⟩
  · exact absurd hz hpages
  have hstart : physToVirt (f * 4096) = frameAddr f := physToVirt_frame (by omega)
  have hstop : u64 (frameAddr f + 256 * pageSize) = frameAddr (f + 256) := by
    rw [frameAddr, frameAddr, kernelPhysMapBase, pageSize, u64_of_lt (by omega)]
    omega
  have hne : frameAddr f ≠ 0 := by
    rw [frameAddr, kernelPhysMapBase]
    omega
  refine ⟨f, { kmemStatic pmm with
    pmm := (pmmAllocPages 256 pmm).2
    earlyHeapStart := frameAddr f
    earlyHeapEnd := frameAddr (f + 256)
    earlyHeapCurrent := frameAddr f }, ?_, hinv', fun hz => h0 ((hfree 0).mp hz).1,
    fun j hj hf => ((hfree j).mp hf).2 hj, hlt, rfl, rfl, rfl, rfl,
    fun _ hin => absurd hin not_mem_nil, by simp⟩
  unfold earlyHeapInit
  simp only [kmemStatic, hf, hstart, hstop, if_neg hne]

lemma newCache_sizeClass (h : size ∈ sizeClasses) :
    (newCache size 8 0).objectsPerSlab ≠ 0 ∧ (newCache size 8 0).geom.Ok := by
  have hall : ∀ size ∈ sizeClasses, 1 ≤ size ∧ CreateFits size (2 ^ 3) 0 ∧
      (newCache size (2 ^ 3) 0).objectsPerSlab ≠ 0 := by decide
  obtain ⟨h1, h2, h3⟩ := hall size h
  exact ⟨h3, (newCache_geom (by norm_num) h1 h2).2.2 h3⟩

lemma Booting.create (h : Booting e i s) (hsize : size ∈ sizeClasses) (hi : i < 11) :
    ∃ s', kmemCacheCreate size 8 0 s = some (frameAddr e + 160 * i, s') ∧ Booting e (i + 1) { s' with
        sizeCaches := update s'.sizeCaches i (frameAddr e + 160 * i) } := by
  obtain ⟨hn, hok⟩ := newCache_sizeClass hsize
  have hlt := h.lt
  have hbase : frameAddr (e + 256) = frameAddr e + 256 * 4096 := by
    rw [frameAddr, frameAddr]
    omega
  have hup : alignUp sizeofKmemCache 16 = 160 := by decide
  have haddr : frameAddr e + 160 * i ≠ 0 ∧ frameAddr e + 160 * i + 160 < 2 ^ 64 := by
    rw [frameAddr, kernelPhysMapBase]
    omega
  have halloc : kmalloc sizeofKmemCache s = some (frameAddr e + 160 * i,
      { s with earlyHeapCurrent := frameAddr e + 160 * (i + 1) }) := by
    have hcur : u64 (frameAddr e + 160 * i + 160) = frameAddr e + 160 * (i + 1) := by
      rw [u64_of_lt haddr.2]
      omega
    unfold kmalloc earlyAlloc
    simp only [h.init, Bool.not_false, if_true, hup, h.current, h.stop, hcur, hbase]
    rw [if_neg (by omega)]
  refine ⟨Kmem.addCache (frameAddr e + 160 * i) (newCache size 8 0)
    { s with earlyHeapCurrent := frameAddr e + 160 * (i + 1) }, ?_, h.pmm, h.zero, h.taken, h.lt,
    h.start, h.stop, rfl, h.init, ?_, ?_⟩
  rotate_left
  · intro cache hin
    rcases mem_cons.mp hin with rfl | hin
    · exact ⟨⟨by omega, by omega⟩, newCache size 8 0, update_self .., hok, rfl, rfl⟩
    obtain ⟨hrange, c, hc, hrest⟩ := h.caches cache hin
    have hne : cache ≠ frameAddr e + 160 * i := by omega
    exact ⟨⟨hrange.1, by omega⟩, c, (update_of_ne hne ..).trans hc, hrest⟩
  · intro j hj
    by_cases he : j = i
    · rw [he]
      exact (congrArg (· ∈ _) (update_self ..)).mpr mem_cons_self
    · exact (congrArg (· ∈ _) (update_of_ne he ..)).mpr (mem_cons_of_mem _ (h.sizes j (by omega)))
  unfold kmemCacheCreate
  rw [halloc]
  simp only [bind_eq_bind, bind_some]
  rw [if_neg haddr.1, if_neg hn]
  rfl

lemma createSizeCaches_spec (hl : ∀ size ∈ l, size ∈ sizeClasses) (hlen : i + l.length ≤ 11) (h : Booting e i s) :
    ∃ s', createSizeCaches l i s = some s' ∧ Booting e (i + l.length) s' := by
  induction l generalizing i s with
  | nil => exact ⟨s, rfl, h⟩
  | cons size rest ih =>
    obtain ⟨hsize, hrest⟩ := forall_mem_cons.mp hl
    rw [length_cons] at hlen
    obtain ⟨s₁, hrun, h1⟩ := h.create hsize (by omega)
    obtain ⟨s2, hrun2, h2⟩ := ih hrest (by omega) h1
    have hne : frameAddr e + 160 * i ≠ 0 := by
      rw [frameAddr, kernelPhysMapBase]
      omega
    refine ⟨s2, ?_, by rwa [length_cons, show i + (rest.length + 1) = i + 1 + rest.length by omega]⟩
    rw [createSizeCaches, hrun]
    simp only [bind_eq_bind, bind_some, if_neg hne]
    exact hrun2

lemma kmallocInit_inv (hinv : pmm.Inv) (h0 : ¬ pmm.FrameFree 0) (hpages : (pmmAllocPages 256 pmm).1 ≠ 0) :
    ∃ s, kmallocInit pmm = some s ∧ KmemInv s (fun _ => ∅) ∧ s.slabInitialized = true ∧
      ∀ cache c slab, ¬ HasSlab s cache c slab := by
  obtain ⟨e, s0, hrun0, h₀⟩ := earlyHeapInit_spec hinv h0 hpages
  obtain ⟨s, hrun, h⟩ := createSizeCaches_spec (l := sizeClasses) (fun _ hs => hs) (by decide) h₀
  have hlen : 0 + sizeClasses.length = 11 := by decide
  rw [hlen] at h
  have hslab : ∀ cache c slab, ¬ HasSlab { s with slabInitialized := true } cache c slab := by
    rintro cache c slab ⟨hin, hc, hs⟩
    obtain ⟨-, c', hc', -, hnil, -⟩ := h.caches cache hin
    obtain rfl : c' = c := some.inj (hc'.symm.trans hc)
    rw [hnil] at hs
    cases hs
  refine ⟨{ s with slabInitialized := true }, ?_, ?_, rfl, hslab⟩
  · unfold kmallocInit
    rw [hrun0]
    simp only [bind_eq_bind, bind_some, hrun]
  have hbase : frameAddr (e + 256) = frameAddr e + 256 * 4096 := by
    rw [frameAddr, frameAddr]
    omega
  refine ⟨h.pmm, h.zero, fun hin => ?_, fun cache hin => ?_, fun _ _ _ _ _ _ hs => absurd hs (hslab _ _ _),
    fun _ _ _ hs => absurd hs (hslab _ _ _), fun _ _ _ hs => absurd hs (hslab _ _ _),
    ⟨e, h.start, h.stop, h.lt, ?_, ?_, h.taken, fun _ _ _ hs => absurd hs (hslab _ _ _)⟩,
    fun cache hin => .inl ?_, fun _ => h.sizes⟩
  · have := (h.caches 0 hin).1.1
    rw [frameAddr, kernelPhysMapBase] at this
    omega
  · obtain ⟨-, c, hc, hg, hnil, hactive⟩ := h.caches cache hin
    obtain ⟨hpart, hfull, hfree⟩ : c.slabsPartial = [] ∧ c.slabsFull = [] ∧ c.slabsFree = [] := by
      simpa [KmemCache.slabs] using hnil
    exact ⟨c, hc, hg, by simp [hnil], by simp [hnil], by simp [hpart], by simp [hfull], by simp, by simp [hactive]⟩
  · show s.earlyHeapStart ≤ s.earlyHeapCurrent
    rw [h.start, h.current]
    omega
  · show s.earlyHeapCurrent ≤ s.earlyHeapEnd
    rw [h.stop, h.current, hbase]
    omega
  show s.earlyHeapStart ≤ cache ∧ cache < s.earlyHeapCurrent
  rw [h.start, h.current]
  exact (h.caches cache hin).1

end Init

end Obelisk
