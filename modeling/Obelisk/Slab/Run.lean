import Obelisk.Lib.Run
import Obelisk.Slab.Create

/-!
# Runs of the kernel heap

The calls of the heap, with a record of what their callers hold: every object that was returned and
not given back, with its cache, and every large block.
-/

namespace Obelisk

open KLib List

/-- A call of the heap. -/
inductive KmemOp
  | cacheCreate (size align : ℕ) (flags : BitVec 32)
  | cacheAlloc (cache : ℕ)
  | cacheFree (cache obj : ℕ)
  | cacheShrink (cache : ℕ)
  | kmalloc (size : ℕ)
  | kfree (ptr : ℕ)

/-- The heap with the objects and blocks that have been handed out. -/
structure HeapState where
  kmem : Kmem
  objs : List (ℕ × ℕ)
  blocks : List ℕ

namespace HeapState

def take (cache obj : ℕ) (s : Kmem) (x : HeapState) : HeapState :=
  { x with kmem := s, objs := if obj = 0 then x.objs else (cache, obj) :: x.objs }

def give (ptr : ℕ) (s : Kmem) (x : HeapState) : HeapState :=
  ⟨s, x.objs.filter (·.2 ≠ ptr), x.blocks.filter (· ≠ ptr)⟩

def takeBlock (size ptr : ℕ) (s : Kmem) (x : HeapState) : HeapState :=
  match findSizeClass size with
  | some i => x.take (x.kmem.sizeCaches i) ptr s
  | none => { x with kmem := s, blocks := if ptr = 0 then x.blocks else ptr :: x.blocks }

end HeapState

/-- One call: its result, and the next state. The result is `none` if the call reads through a
dangling pointer. The descriptor of a new cache is an object of the size class of 256 bytes. -/
def KmemOp.exec : KmemOp → HeapState → Option ℕ × HeapState
  | .cacheCreate size align flags, x =>
    match Obelisk.kmalloc sizeofKmemCache x.kmem, kmemCacheCreate size align flags x.kmem with
    | some (p, _), some (cache, s) => (some cache, x.take (x.kmem.sizeCaches 5) p s)
    | _, _ => (none, x)
  | .cacheAlloc cache, x =>
    match kmemCacheAlloc cache x.kmem with
    | some (obj, s) => (some obj, x.take cache obj s)
    | none => (none, x)
  | .cacheFree cache obj, x =>
    match kmemCacheFree cache obj x.kmem with
    | some s => (some 0, x.give obj s)
    | none => (none, x)
  | .cacheShrink cache, x =>
    match kmemCacheShrink cache x.kmem with
    | some (n, s) => (some n, { x with kmem := s })
    | none => (none, x)
  | .kmalloc size, x =>
    match Obelisk.kmalloc size x.kmem with
    | some (p, s) => (some p, x.takeBlock size p s)
    | none => (none, x)
  | .kfree ptr, x =>
    match Obelisk.kfree ptr x.kmem with
    | some s => (some 0, x.give ptr s)
    | none => (none, x)

def HeapState.Holds (x : HeapState) (ptr : ℕ) : Prop :=
  ptr ∈ x.objs.map Prod.snd ∧ ptr ∉ x.kmem.cacheList

instance (x : HeapState) (ptr : ℕ) : Decidable (x.Holds ptr) := inferInstanceAs (Decidable (_ ∧ _))

def KmemOp.Valid : KmemOp → HeapState → Prop
  | .cacheCreate size align flags, _ =>
    1 ≤ size ∧ (∃ k < 64, align = 2 ^ k) ∧ CreateFits size align flags
  | .cacheAlloc cache, x => cache ∈ x.kmem.cacheList
  | .cacheFree cache obj, x => cache ∈ x.kmem.cacheList ∧ x.Holds obj
  | .cacheShrink cache, x => cache ∈ x.kmem.cacheList
  | .kmalloc _, _ => True
  | .kfree ptr, x => x.Holds ptr ∨ ptr ∈ x.blocks

instance : ∀ (op : KmemOp) (x : HeapState), Decidable (op.Valid x)
  | .cacheCreate .., _ => inferInstanceAs (Decidable (_ ∧ _ ∧ _))
  | .cacheAlloc _, _ => inferInstanceAs (Decidable (_ ∈ _))
  | .cacheFree .., _ => inferInstanceAs (Decidable (_ ∧ _))
  | .cacheShrink _, _ => inferInstanceAs (Decidable (_ ∈ _))
  | .kmalloc _, _ => inferInstanceAs (Decidable True)
  | .kfree _, _ => inferInstanceAs (Decidable (_ ∨ _))

def heapRun (ops : List KmemOp) (x : HeapState) : HeapState := (runOps KmemOp.exec ops x).2

def HeapValid (ops : List KmemOp) (x : HeapState) : Prop := Along KmemOp.exec KmemOp.Valid ops x

instance (ops : List KmemOp) (x : HeapState) : Decidable (HeapValid ops x) := decidableAlong _ _ ops x

/-- The state after `kmalloc_init`. -/
structure Boots (pmm : Pmm) (x : HeapState) : Prop where
  inv : pmm.Inv
  zero : ¬ pmm.FrameFree 0
  early : (pmmAllocPages 256 pmm).1 ≠ 0
  init : kmallocInit pmm = some x.kmem
  objs : x.objs = []
  blocks : x.blocks = []

/-! ## The invariant -/

/-- What every run keeps. -/
structure HeapOk (x : HeapState) (used : ℕ → Finset ℕ) : Prop where
  inv : KmemInv x.kmem used
  busy : PartialBusy x.kmem used 0
  init : x.kmem.slabInitialized = true
  objs : ∀ o p, (o, p) ∈ x.objs ↔ LiveIn x.kmem used o p
  nodup : x.objs.Nodup
  blocks : ∀ p ∈ x.blocks, LargeAt x.kmem p

lemma Boots.ok {pmm : Pmm} {x : HeapState} (h : Boots pmm x) : HeapOk x fun _ => ∅ := by
  obtain ⟨s, hs, hinv, hinit, hslab⟩ := kmallocInit_inv h.inv h.zero h.early
  obtain rfl : x.kmem = s := Option.some.inj (h.init.symm.trans hs)
  refine ⟨hinv, fun cache c slab hs => absurd hs (hslab cache c slab), hinit, fun o p => ?_, ?_, ?_⟩
  · rw [h.objs]
    refine iff_of_false not_mem_nil ?_
    rintro ⟨c, slab, i, hs, -⟩
    exact hslab o c slab hs
  · rw [h.objs]
    exact nodup_nil
  rw [h.blocks]
  exact fun _ hp => absurd hp not_mem_nil

section Step

variable {x : HeapState} {used used' : ℕ → Finset ℕ} {s' : Kmem} {o p : ℕ}

section

variable (h : HeapOk x used) (hk : KmemKeeps x.kmem s') (hinv : KmemInv s' used')
include h hk hinv

section

variable (hbusy : PartialBusy x.kmem used 0 → PartialBusy s' used' 0)
include hbusy

lemma HeapOk.same
    (hlive : ∀ o q, LiveIn s' used' o q ↔ LiveIn x.kmem used o q) :
    HeapOk { x with kmem := s' } used' :=
  ⟨hinv, hbusy h.busy, hk.slabInitialized.trans h.init, fun o q => (h.objs o q).trans (hlive o q).symm,
    h.nodup, fun q hq => hk.largeAt (h.blocks q hq)⟩

lemma HeapOk.take (hp : p ≠ 0)
    (hfresh : ∀ o, ¬ LiveIn x.kmem used o p)
    (hlive : ∀ o' q, LiveIn s' used' o' q ↔ LiveIn x.kmem used o' q ∨ (o' = o ∧ q = p)) :
    HeapOk (x.take o p s') used' := by
  have hobjs : (x.take o p s').objs = (o, p) :: x.objs := if_neg hp
  refine ⟨hinv, hbusy h.busy, hk.slabInitialized.trans h.init, fun o' q => ?_, ?_,
    fun q hq => hk.largeAt (h.blocks q hq)⟩
  · rw [hobjs, mem_cons, h.objs, Prod.mk.injEq, or_comm]
    exact (hlive o' q).symm
  rw [hobjs, nodup_cons]
  exact ⟨fun hin => hfresh o ((h.objs o p).mp hin), h.nodup⟩

lemma HeapOk.give
    (hlive : ∀ o q, LiveIn s' used' o q ↔ LiveIn x.kmem used o q ∧ q ≠ p) :
    HeapOk (x.give p s') used' := by
  refine ⟨hinv, hbusy h.busy, hk.slabInitialized.trans h.init, fun o q => ?_, h.nodup.filter _,
    fun q hq => hk.largeAt (h.blocks q (mem_filter.mp hq).1)⟩
  rw [HeapState.give, mem_filter, h.objs]
  simpa using (hlive o q).symm

end

end

lemma HeapOk.giveBlock (h : HeapOk x used) (hp : LargeAt x.kmem p) :
    HeapOk (x.give p x.kmem) used := by
  refine h.give (.refl _) h.inv id fun o q => ⟨fun hl => ⟨hl, ?_⟩, fun hl => hl.1⟩
  rintro rfl
  exact h.inv.not_largeAt hl hp

lemma HeapOk.liveIn_of_holds (h : HeapOk x used) (hp : x.Holds p) :
    ∃ o, LiveIn x.kmem used o p := by
  obtain ⟨⟨o, q⟩, hin, rfl⟩ := mem_map.mp hp.1
  exact ⟨o, (h.objs o q).mp hin⟩

/-- Every valid call returns and keeps the invariant. -/
theorem KmemOp.exec_ok (op : KmemOp) (h : HeapOk x used) (hv : op.Valid x) :
    (∃ r, (op.exec x).1 = some r) ∧ KmemKeeps x.kmem (op.exec x).2.kmem ∧
      ∃ used', HeapOk (op.exec x).2 used' := by
  cases op with
  | cacheCreate size align flags =>
    obtain ⟨hsize, ⟨k, hk, rfl⟩, hfit⟩ := hv
    obtain ⟨p, s1, cache, s', used', hrun, hcr, hkeep, -, hbusy, hinv, hres⟩ :=
      kmemCacheCreate_spec h.inv h.init hk hsize hfit
    simp only [KmemOp.exec, hrun, hcr]
    refine ⟨⟨cache, rfl⟩, hkeep, used', ?_⟩
    cases hres with
    | noMemory hp hlive =>
      rw [HeapState.take, if_pos hp]
      exact h.same hkeep hinv hbusy hlive
    | noObjects hp _ hfresh hlive => exact h.take hkeep hinv hbusy hp hfresh hlive
    | ok hp _ _ hfresh hlive => exact h.take hkeep hinv hbusy hp hfresh hlive
  | cacheAlloc cache =>
    obtain ⟨obj, s', used', hrun, hgrow, hbusy, hinv, hres⟩ := kmemCacheAlloc_spec h.inv hv
    simp only [KmemOp.exec, hrun]
    refine ⟨⟨obj, rfl⟩, hgrow.keeps, used', ?_⟩
    rcases hres with ⟨rfl, -, hlive⟩ | ⟨hfresh, hlive⟩
    · rw [HeapState.take, if_pos rfl]
      exact h.same hgrow.keeps hinv hbusy hlive
    have hobj : obj ≠ 0 := ((hlive cache obj).mpr (.inr ⟨rfl, rfl⟩)).ne_zero
    exact h.take hgrow.keeps hinv hbusy hobj hfresh hlive
  | cacheFree cache obj =>
    obtain ⟨o, hl⟩ := h.liveIn_of_holds hv.2
    obtain ⟨s', used', hrun, hgrow, hbusy, hinv, hlive⟩ := kmemCacheFree_spec h.inv hv.1 hl hv.2.2
    simp only [KmemOp.exec, hrun]
    exact ⟨⟨0, rfl⟩, hgrow.keeps, used', h.give hgrow.keeps hinv hbusy hlive⟩
  | cacheShrink cache =>
    obtain ⟨c, hc, -⟩ := h.inv.cache cache hv
    obtain ⟨s', hrun, hsh⟩ := kmemCacheShrink_spec h.inv hv hc
    simp only [KmemOp.exec, hrun]
    exact ⟨⟨_, rfl⟩, hsh.keeps hc, used, h.same (hsh.keeps hc) hsh.inv hsh.busy hsh.live⟩
  | kmalloc size =>
    obtain ⟨p, s', used', hrun, hbusy, hinv, hres⟩ := kmalloc_spec h.inv h.init size
    simp only [KmemOp.exec, hrun]
    refine ⟨⟨p, rfl⟩, ?_, used', ?_⟩
    · rw [HeapState.takeBlock]
      split <;> cases hres with
      | null hgrow => exact hgrow.keeps
      | obj _ _ hgrow => exact hgrow.keeps
      | large _ hkeep => exact hkeep
    cases hres with
    | null hgrow hlive =>
      rw [HeapState.takeBlock]
      split
      · rw [HeapState.take, if_pos rfl]
        exact h.same hgrow.keeps hinv hbusy hlive
      rw [if_pos rfl]
      exact h.same hgrow.keeps hinv hbusy hlive
    | obj hcls hp hgrow hfresh hlive =>
      rw [HeapState.takeBlock, hcls]
      exact h.take hgrow.keeps hinv hbusy hp hfresh hlive
    | @large f _ hcls hkeep hlist hlive hfree hlarge =>
      have hsame := h.same hkeep hinv hbusy hlive
      rw [HeapState.takeBlock, hcls]
      refine ⟨hsame.inv, hsame.busy, hsame.init, hsame.objs, hsame.nodup, fun q hq => ?_⟩
      rw [if_neg (by omega)] at hq
      rcases mem_cons.mp hq with rfl | hq
      · exact hlarge
      · exact hsame.blocks q hq
  | kfree ptr =>
    rcases hv with hv | hv
    · obtain ⟨o, hl⟩ := h.liveIn_of_holds hv
      obtain ⟨s', used', hrun, hgrow, hbusy, hinv, hlive⟩ := kfree_spec h.inv h.init hl hv.2
      simp only [KmemOp.exec, hrun]
      exact ⟨⟨0, rfl⟩, hgrow.keeps, used', h.give hgrow.keeps hinv hbusy hlive⟩
    have hlarge := h.blocks ptr hv
    simp only [KmemOp.exec, kfree_large h.inv h.init hlarge]
    exact ⟨⟨0, rfl⟩, .refl _, used, h.giveBlock hlarge⟩

lemma heapRun_ok {ops : List KmemOp} (h : HeapOk x used) (hv : HeapValid ops x) :
    ∃ used', HeapOk (heapRun ops x) used' ∧ KmemKeeps x.kmem (heapRun ops x).kmem := by
  refine runOps_inv_along (Q := fun _ => True)
    (fun y => ∃ used', HeapOk y used' ∧ KmemKeeps x.kmem y.kmem) ?_ (fun _ _ => trivial) hv
    ⟨used, h, .refl _⟩
  rintro op y - hop ⟨used', hy, hk⟩
  obtain ⟨-, hk', used'', hy'⟩ := op.exec_ok hy hop
  exact ⟨used'', hy', hk.trans hk'⟩

end Step

def smallFrames : Pmm where
  zones
    | .dma => ⟨0, 288, 288, 264⟩
    | .normal => ⟨0x1000, 0x1000, 0, 0⟩
    | .high => ⟨0x100000, 0x100000, 0, 0⟩
  bitmap w := if w = 0 then 0xFFFFFE01#32 else if w < 9 then 0#32 else BitVec.allOnes 32
  totalPages := 288
  freePages := 264
  usablePages := 264
  pageArray := none
  pageArrayCount := 0

lemma smallFrames_inv : smallFrames.Inv := by
  refine ⟨⟨rfl, by decide, rfl, by decide, rfl, by decide⟩, fun z => ?_, rfl⟩
  cases z <;> decide +kernel

lemma smallFrames_init : (kmallocInit smallFrames).isSome = true := by decide +kernel

def smallHeap : HeapState := ⟨(kmallocInit smallFrames).getD (kmemStatic smallFrames), [], []⟩

lemma smallHeap_boots : Boots smallFrames smallHeap where
  inv := smallFrames_inv
  zero := by
    rintro ⟨z, hz⟩
    have hbit := (Pmm.mem_freeFrames.mp hz).2
    exact absurd hbit (by decide)
  early := by decide +kernel
  init := by
    obtain ⟨s, hs⟩ := Option.isSome_iff_exists.mp smallFrames_init
    rw [smallHeap, hs, Option.getD_some]
  objs := rfl
  blocks := rfl

end Obelisk
