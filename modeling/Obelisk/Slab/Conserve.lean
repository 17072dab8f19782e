import Obelisk.Slab.Run

/-!
# `kmalloc`, `kfree` and `krealloc`

- `kmalloc_conserves`: small blocks lose no memory.
- `krealloc_keeps_iff`: when `krealloc` keeps the contents.
-/

namespace Obelisk

open KLib List KmemOp

section Conserve

variable {x : HeapState} {used : ℕ → Finset ℕ} {s : Kmem} {cache : ℕ} {c : KmemCache}

lemma KmemInv.active_eq (h : KmemInv s used) (hin : cache ∈ s.cacheList)
    (hc : s.caches cache = some c) : c.activeObjects = { p | LiveIn s used cache p }.ncard := by
  have hok := h.cacheOk hin hc
  have hset : { p | LiveIn s used cache p } =
      ((c.slabs.toFinset.sigma used).image fun q => c.geom.addr q.1 q.2 : Finset ℕ) := by
    ext p
    simp only [Set.mem_ofPred_eq, Finset.coe_image, Set.mem_image, Finset.mem_coe, Finset.mem_sigma,
      mem_toFinset, Sigma.exists]
    constructor
    · rintro ⟨c1, slab, i, hs, hi, rfl⟩
      obtain rfl : c = c1 := Option.some.inj (hc.symm.trans hs.cache)
      exact ⟨slab, i, ⟨hs.slab, hi⟩, rfl⟩
    rintro ⟨slab, i, ⟨hs, hi⟩, rfl⟩
    exact ⟨c, slab, i, ⟨hin, hc, hs⟩, hi, rfl⟩
  have hinj : Set.InjOn (fun q : (_ : ℕ) × ℕ => c.geom.addr q.1 q.2)
      (c.slabs.toFinset.sigma used : Finset _) := by
    rintro ⟨slab, i⟩ hq ⟨slab', j⟩ hq' he
    obtain ⟨hs, hi⟩ := Finset.mem_sigma.mp hq
    obtain ⟨hs', hj⟩ := Finset.mem_sigma.mp hq'
    have hs : HasSlab s cache c slab := ⟨hin, hc, mem_toFinset.mp hs⟩
    have hs' : HasSlab s cache c slab' := ⟨hin, hc, mem_toFinset.mp hs'⟩
    obtain ⟨rfl, rfl⟩ := h.addr_inj hs hs' (h.used_lt hs hi) (h.used_lt hs' hj) he
    rfl
  rw [hset, Set.ncard_coe_finset, Finset.card_image_of_injOn hinj, Finset.card_sigma]
  exact hok.active

def KmemOp.Small : KmemOp → Prop
  | .kmalloc size => size ≤ 8192
  | .kfree _ => True
  | _ => False

lemma findSizeClass_ne_none {size : ℕ} (h : size ≤ 8192) : findSizeClass size ≠ none := by
  intro hnone
  have hlast := findIdx?_eq_none_iff.mp hnone 8192 (by decide)
  exact absurd h (of_decide_eq_false hlast)

lemma KmemOp.exec_small (op : KmemOp) (h : HeapOk x used) (hv : op.Valid x) (hop : op.Small) :
    Grows (IsSizeCache x.kmem) x.kmem (op.exec x).2.kmem := by
  cases op with
  | kmalloc size =>
    obtain ⟨p, s', used', hrun, -, -, hres⟩ := kmalloc_spec h.inv h.init size
    have hkmem : (exec (.kmalloc size) x).2.kmem = s' := by
      simp only [exec, hrun, HeapState.takeBlock]
      split <;> rfl
    rw [hkmem]
    cases hres with
    | null hgrow => exact hgrow
    | obj _ _ hgrow => exact hgrow
    | large hcls => exact absurd hcls (findSizeClass_ne_none hop)
  | kfree ptr =>
    rcases hv with hv | hv
    · obtain ⟨o, hl⟩ := h.liveIn_of_holds hv
      obtain ⟨s', used', hrun, hgrow, -⟩ := kfree_spec h.inv h.init hl hv.2
      simp only [exec, hrun]
      exact hgrow.mono fun _ hf => hf.elim
    simp only [exec, kfree_large h.inv h.init (h.blocks ptr hv)]
    exact .refl _ _
  | _ => exact absurd hop id

/-- **Memory is conserved** by every run of `kmalloc` for at most 8192 bytes and `kfree` at whose end
the blocks in use are those of its start. -/
theorem kmalloc_conserves {pmm : Pmm} (hb : Boots pmm x) {before ops : List KmemOp}
    (hv₀ : HeapValid before x) (hsmall : ∀ op ∈ ops, op.Small) (hv : HeapValid ops (heapRun before x))
    (hend : ∀ q, q ∈ (heapRun ops (heapRun before x)).objs ↔ q ∈ (heapRun before x).objs) :
    (∀ j, (heapRun before x).kmem.pmm.FrameFree j →
      (heapRun ops (heapRun before x)).kmem.pmm.FrameFree j ∨ ∃ i < sizeClasses.length, ∃ c slab,
          HasSlab (heapRun ops (heapRun before x)).kmem ((heapRun before x).kmem.sizeCaches i) c slab ∧
            j ∈ c.geom.frames slab) ∧
    ∀ i < sizeClasses.length, ∀ c c',
      (heapRun before x).kmem.caches ((heapRun before x).kmem.sizeCaches i) = some c →
      (heapRun ops (heapRun before x)).kmem.caches ((heapRun before x).kmem.sizeCaches i) = some c' →
        c'.activeObjects = c.activeObjects := by
  obtain ⟨used, hok, -⟩ := heapRun_ok hb.ok hv₀
  generalize heapRun before x = y at hv hend hok ⊢
  obtain ⟨used', hok', hgrow⟩ : ∃ used', HeapOk (heapRun ops y) used' ∧
      Grows (IsSizeCache y.kmem) y.kmem (heapRun ops y).kmem := by
    refine runOps_inv_along (Q := KmemOp.Small)
      (fun z => ∃ used', HeapOk z used' ∧ Grows (IsSizeCache y.kmem) y.kmem z.kmem) ?_ hsmall hv
      ⟨used, hok, .refl ..⟩
    rintro op z hop hvalid ⟨used', hz, hg⟩
    obtain ⟨-, -, used'', hz'⟩ := op.exec_ok hz hvalid
    refine ⟨used'', hz', hg.trans ((op.exec_small hz hvalid hop).mono fun cache hc => ?_)⟩
    rwa [IsSizeCache, hg.sizeCaches] at hc
  refine ⟨fun j hj => (hgrow.frames j hj).imp_right ?_, fun i hi c c' hc hc' => ?_⟩
  · rintro ⟨_, c, slab, ⟨i, hi, rfl⟩, hs, hmem⟩
    exact ⟨i, hi, c, slab, hs, hmem⟩
  have hin := hok.inv.sizeCaches hok.init i hi
  rw [hok.inv.active_eq hin hc, hok'.inv.active_eq (hgrow.cacheList ▸ hin) hc']
  refine congrArg Set.ncard (Set.ext fun p => ?_)
  exact ((hok'.objs _ p).symm.trans (hend _)).trans (hok.objs _ p)

end Conserve

theorem kmalloc_conserves_small :
    HeapValid [.kmalloc 8192, .kmalloc 5, .kfree 0xFFFF888000001030, .kfree 0xFFFF888000004030]
      smallHeap ∧ ∀ j, smallHeap.kmem.pmm.FrameFree j →
      (heapRun [.kmalloc 8192, .kmalloc 5, .kfree 0xFFFF888000001030, .kfree 0xFFFF888000004030]
        smallHeap).kmem.pmm.FrameFree j ∨ ∃ i < sizeClasses.length, ∃ c slab,
          HasSlab (heapRun [.kmalloc 8192, .kmalloc 5, .kfree 0xFFFF888000001030,
            .kfree 0xFFFF888000004030] smallHeap).kmem (smallHeap.kmem.sizeCaches i) c slab ∧
              j ∈ c.geom.frames slab := by
  have hgen : ∀ {x : HeapState} {ops : List KmemOp}, Boots smallFrames x →
      (∀ op ∈ ops, op.Small) → HeapValid ops x → (heapRun ops x).objs = [] →
      ∀ j, x.kmem.pmm.FrameFree j → (heapRun ops x).kmem.pmm.FrameFree j ∨ ∃ i < sizeClasses.length, ∃ c slab,
          HasSlab (heapRun ops x).kmem (x.kmem.sizeCaches i) c slab ∧ j ∈ c.geom.frames slab := by
    intro x ops hb hsmall hv hend
    have hnil : heapRun [] x = x := rfl
    have hcons := @kmalloc_conserves x smallFrames hb [] ops trivial hsmall
    rw [hnil, hend, hb.objs] at hcons
    exact (hcons hv fun _ => .rfl).1
  have hv : HeapValid [.kmalloc 8192, .kmalloc 5, .kfree 0xFFFF888000001030,
      .kfree 0xFFFF888000004030] smallHeap := by decide +kernel
  refine ⟨hv, hgen smallHeap_boots ?_ hv (by decide +kernel)⟩
  simp [KmemOp.Small]

theorem large_block_lost : Boots smallFrames smallHeap ∧
    HeapValid [.kmalloc 9000, .kfree 0xFFFF888000001008] smallHeap ∧
    (heapRun [.kmalloc 9000, .kfree 0xFFFF888000001008] smallHeap).objs = [] ∧
    (heapRun [.kmalloc 9000, .kfree 0xFFFF888000001008] smallHeap).blocks = [] ∧
    bitmapTest smallHeap.kmem.pmm.bitmap 1 = false ∧
    bitmapTest (heapRun [.kmalloc 9000, .kfree 0xFFFF888000001008] smallHeap).kmem.pmm.bitmap 1 = true ∧
    ∀ i < sizeClasses.length, ((heapRun [.kmalloc 9000, .kfree 0xFFFF888000001008] smallHeap).kmem.caches
        (smallHeap.kmem.sizeCaches i)).map KmemCache.slabs = some [] := by
  refine ⟨smallHeap_boots, ?_⟩
  decide +kernel

/-! ## Reallocation -/

def KmemOp.Frees (p : ℕ) : KmemOp → Prop
  | .cacheFree _ obj => obj = p
  | .kfree ptr => ptr = p
  | _ => False

def HeapState.Outstanding (x : HeapState) (p : ℕ) : Prop := p ∈ x.objs.map Prod.snd ∨ p ∈ x.blocks

section Realloc

variable {x : HeapState} {used : ℕ → Finset ℕ} {p q n : ℕ}

section

variable (h : x.Outstanding p)
include h

lemma HeapState.Outstanding.take (o obj : ℕ) (s : Kmem) : (x.take o obj s).Outstanding p := by
  refine h.imp_left fun hp => ?_
  unfold HeapState.take
  split_ifs
  · exact hp
  · exact mem_cons_of_mem _ hp

lemma HeapState.Outstanding.give {ptr : ℕ} (hne : ptr ≠ p) (s : Kmem) :
    (x.give ptr s).Outstanding p := by
  refine h.imp (fun hp => ?_) fun hp => mem_filter.mpr ⟨hp, by simpa using Ne.symm hne⟩
  obtain ⟨⟨o, p'⟩, hin, rfl⟩ := mem_map.mp hp
  exact mem_map.mpr ⟨(o, p'), mem_filter.mpr ⟨hin, by simpa using Ne.symm hne⟩, rfl⟩

lemma HeapState.Outstanding.takeBlock (size ptr : ℕ) (s : Kmem) :
    (x.takeBlock size ptr s).Outstanding p := by
  unfold HeapState.takeBlock
  split
  · exact h.take _ _ _
  refine h.imp_right fun hp => ?_
  dsimp only
  split_ifs
  · exact hp
  · exact mem_cons_of_mem _ hp

lemma HeapState.Outstanding.exec {op : KmemOp} (hop : ¬ op.Frees p) :
    (op.exec x).2.Outstanding p := by
  cases op with
  | cacheCreate | cacheAlloc =>
    simp only [KmemOp.exec]
    split
    exacts [h.take .., h]
  | cacheFree =>
    simp only [KmemOp.exec]
    split
    exacts [h.give hop _, h]
  | cacheShrink =>
    simp only [KmemOp.exec]
    split
    exacts [h, h]
  | kmalloc =>
    simp only [KmemOp.exec]
    split
    exacts [h.takeBlock .., h]
  | kfree =>
    simp only [KmemOp.exec]
    split
    exacts [h.give hop _, h]

lemma HeapState.Outstanding.heapRun {ops : List KmemOp}
    (hops : ∀ op ∈ ops, ¬ op.Frees p) : (heapRun ops x).Outstanding p :=
  runOps_inv_along (Q := fun op : KmemOp => ¬ op.Frees p) (P := fun _ _ => True)
    (fun y : HeapState => y.Outstanding p)
    (fun _ _ hop _ h => h.exec hop) hops (along_true ..) h

end

lemma outstanding_kmalloc {size : ℕ} (hp : (exec (.kmalloc size) x).1 = some p) (h0 : p ≠ 0) :
    (exec (.kmalloc size) x).2.Outstanding p := by
  unfold exec at hp ⊢
  dsimp only at hp ⊢
  cases hrun : kmalloc size x.kmem with
  | none => rw [hrun] at hp; cases hp
  | some r =>
    rw [hrun] at hp
    obtain rfl : r.1 = p := Option.some.inj hp
    dsimp only
    unfold HeapState.takeBlock
    split
    · rw [HeapState.take, if_neg h0]
      exact .inl mem_cons_self
    rw [if_neg h0]
    exact .inr mem_cons_self

lemma HeapOk.kmalloc_ne (h : HeapOk x used) (hp : x.Outstanding p) {s : Kmem}
    (hrun : kmalloc n x.kmem = some (q, s)) (hq : q ≠ 0) : q ≠ p := by
  rintro rfl
  obtain ⟨q', s', used', hrun', -, hinv, hres⟩ := kmalloc_spec h.inv h.init n
  obtain ⟨rfl, rfl⟩ : q = q' ∧ s = s' := by
    rw [hrun] at hrun'
    simpa using hrun'
  rcases hp with hp | hp
  · obtain ⟨⟨o, q'⟩, hin, rfl⟩ := mem_map.mp hp
    have hl := (h.objs o q').mp hin
    cases hres with
    | null => exact hq rfl
    | obj _ _ _ hfresh => exact hfresh o hl
    | @large f _ _ hkeep _ hlive hfree hlarge => exact hinv.not_largeAt ((hlive o _).mpr hl) hlarge
  have hl := h.blocks q hp
  cases hres with
  | null => exact hq rfl
  | obj _ _ hgrow _ hlive =>
    exact hinv.not_largeAt ((hlive _ q).mpr (.inr ⟨rfl, rfl⟩)) (hgrow.keeps.largeAt hl)
  | @large f _ _ _ _ _ hfree _ =>
    obtain ⟨g, hg, -, hnot⟩ := hl
    obtain rfl : f = g := by
      rw [frameAddr, frameAddr] at hg
      omega
    exact hnot (.inl hfree)

lemma krealloc_eq_some {s s' : Kmem} {mem mem' : ℕ → BitVec 8} (hp : p ≠ 0) (hn : 0 < n)
    (hq : q ≠ 0) : krealloc p n s mem = some (q, s', mem') ↔
      ∃ s1, kmalloc n s = some (q, s1) ∧ kfree p s1 = some s' ∧ mem' = memcpy q p (min 8 n) mem := by
  unfold krealloc
  rw [if_neg hp, if_neg (by omega)]
  have husable : ∀ s, kmallocUsableSize p s = 8 := fun s => by
    rw [kmallocUsableSize, if_neg hp]
    rfl
  cases hrun : kmalloc n s with
  | none => simp
  | some r =>
    obtain ⟨q', s1⟩ := r
    simp only [Option.bind_eq_bind, Option.bind_some, Option.some.injEq, Prod.mk.injEq, husable]
    split_ifs with h0
    · refine iff_of_false ?_ ?_
      · rintro ⟨⟩
        exact hq rfl
      rintro ⟨_, ⟨rfl, -⟩, -⟩
      exact hq h0
    cases hfree : kfree p s1 with
    | none =>
      refine iff_of_false (by simp) ?_
      rintro ⟨_, ⟨-, rfl⟩, hf, -⟩
      rw [hfree] at hf
      cases hf
    | some s2 =>
      simp only [Option.bind_some, Option.some.injEq, Prod.mk.injEq]
      constructor
      · rintro ⟨rfl, rfl, rfl⟩
        exact ⟨s1, ⟨rfl, rfl⟩, hfree, rfl⟩
      rintro ⟨_, ⟨rfl, rfl⟩, hf, rfl⟩
      rw [hfree] at hf
      exact ⟨rfl, Option.some.inj hf, rfl⟩

/-- Whatever memory holds, the bytes of the old block that count are at the start of the new one. -/
def KeepsContents (old n p q : ℕ) (s : Kmem) : Prop :=
  ∀ mem s' mem', krealloc p n s mem = some (q, s', mem') → ∀ i < min old n, mem' (q + i) = mem (p + i)

/-- **`krealloc` keeps the contents** of a block of `old` bytes exactly when at most 8 bytes count:
the size that it copies is always that of the smallest size class. -/
theorem krealloc_keeps_iff {pmm : Pmm} (hb : Boots pmm x) {before ops : List KmemOp}
    (hv₀ : HeapValid before x) {old : ℕ}
    (hp : (KmemOp.exec (.kmalloc old) (heapRun before x)).1 = some p) (hp0 : p ≠ 0)
    (hv : HeapValid ops (KmemOp.exec (.kmalloc old) (heapRun before x)).2)
    (hops : ∀ op ∈ ops, ¬ op.Frees p) (hn : 0 < n) (hq : q ≠ 0)
    (hret : ∃ mem s' mem', krealloc p n
      (heapRun ops (KmemOp.exec (.kmalloc old) (heapRun before x)).2).kmem mem = some (q, s', mem')) :
    KeepsContents old n p q (heapRun ops (KmemOp.exec (.kmalloc old) (heapRun before x)).2).kmem ↔
      min old n ≤ 8 := by
  obtain ⟨used₀, hok₀, -⟩ := heapRun_ok hb.ok hv₀
  obtain ⟨-, -, used₁, hok₁⟩ := exec_ok (.kmalloc old) hok₀ trivial
  obtain ⟨used, hok, -⟩ := heapRun_ok hok₁ hv
  have huse := (outstanding_kmalloc hp hp0).heapRun hops
  generalize heapRun ops (exec (.kmalloc old) (heapRun before x)).2 = y at hret hok huse ⊢
  obtain ⟨mem₀, s', mem₀', hret⟩ := hret
  obtain ⟨s₁, hrun, hfree, -⟩ := (krealloc_eq_some hp0 hn hq).mp hret
  have hne := hok.kmalloc_ne huse hrun hq
  constructor
  · intro hkeep
    by_contra hlt
    -- a memory in which the ninth byte of the old block differs from that of the new one
    have hres : krealloc p n y.kmem (fun a => if a = p + 8 then 1 else 0) =
        some (q, s', memcpy q p (min 8 n) fun a => if a = p + 8 then 1 else 0) :=
      (krealloc_eq_some hp0 hn hq).mpr ⟨s₁, hrun, hfree, rfl⟩
    have h8 := hkeep _ _ _ hres 8 (by omega)
    rw [memcpy, if_neg (by omega), if_neg (by omega), if_pos rfl] at h8
    exact absurd h8 (by decide)
  intro hle mem s'' mem' hres i hi
  obtain ⟨_, -, -, rfl⟩ := (krealloc_eq_some hp0 hn hq).mp hres
  rw [memcpy, if_pos (by omega), Nat.add_sub_cancel_left]

end Realloc

theorem krealloc_keeps_iff_small : (KmemOp.exec (.kmalloc 8) smallHeap).1 = some 0xFFFF888000001030 ∧
    KeepsContents 8 100 0xFFFF888000001030 0xFFFF888000002030
      (KmemOp.exec (.kmalloc 8) smallHeap).2.kmem := by
  have hgen : ∀ {x : HeapState} {p q : ℕ}, Boots smallFrames x → (exec (.kmalloc 8) x).1 = some p → p ≠ 0 → q ≠ 0 →
      (∃ mem s' mem', krealloc p 100 (exec (.kmalloc 8) x).2.kmem mem = some (q, s', mem')) →
      KeepsContents 8 100 p q (exec (.kmalloc 8) x).2.kmem := by
    intro x p q hb hp hp0 hq hret
    have hnil : ∀ y, heapRun [] y = y := fun _ => rfl
    have hiff := @krealloc_keeps_iff x p q 100 smallFrames hb [] [] trivial 8
    rw [hnil, hnil] at hiff
    exact (hiff hp hp0 trivial (fun _ h => absurd h not_mem_nil) (by decide) hq hret).mpr (by decide)
  have hp : (exec (.kmalloc 8) smallHeap).1 = some 0xFFFF888000001030 := by decide +kernel
  refine ⟨hp, hgen smallHeap_boots hp (by decide) (by decide) ?_⟩
  obtain ⟨⟨q, s', mem'⟩, hr, hq⟩ : ∃ r, krealloc 0xFFFF888000001030 100
      (exec (.kmalloc 8) smallHeap).2.kmem (fun _ => 0) = some r ∧
        r.1 = 0xFFFF888000002030 :=
    ⟨_, Option.eq_some_of_isSome (by decide +kernel), by decide +kernel⟩
  exact ⟨fun _ => 0, s', mem', hq ▸ hr⟩

theorem krealloc_loses_byte : Boots smallFrames smallHeap ∧
    (KmemOp.exec (.kmalloc 100) smallHeap).1 = some 0xFFFF888000001030 ∧
    (krealloc 0xFFFF888000001030 200 (KmemOp.exec (.kmalloc 100) smallHeap).2.kmem
      (fun a => if a = 0xFFFF888000001030 + 8 then 1 else 0)).map
        (fun r => (r.1, r.2.2 (0xFFFF888000002030 + 8))) = some (0xFFFF888000002030, 0) := by
  refine ⟨smallHeap_boots, ?_⟩
  decide +kernel

end Obelisk
