import Obelisk.Pmm.Pool

/-!
# The boot memory map

`physmem_init` of `arch/x86_64/mm/physmem.c`: the Multiboot2 information block is walked tag by tag,
the available regions of the memory map are freed, and the first megabyte, the kernel, the block and
the modules are marked as used.
-/

namespace Obelisk

open KLib List

variable {a base entrySize fuel size stop x : ℕ} {tags : List Tag} {entries : List Entry}

namespace Physmem

def multiboot2Magic : ℕ := 0x36d76289
def tagTypeEnd : ℕ := 0
def tagTypeModule : ℕ := 3
def tagTypeMmap : ℕ := 6
def memoryAvailable : ℕ := 1
def kernelVirtBase : ℕ := 0xFFFFFFFF80000000
def kernelPhysMapBase : ℕ := 0xFFFF888000000000

/-! ## Reading the information block -/

abbrev Memory := ℕ → UInt8

def get32 (mem : Memory) (a : ℕ) : ℕ :=
  (mem a).toNat + 2 ^ 8 * (mem (a + 1)).toNat + 2 ^ 16 * (mem (a + 2)).toNat + 2 ^ 24 * (mem (a + 3)).toNat

def get64 (mem : Memory) (a : ℕ) : ℕ := get32 mem a + 2 ^ 32 * get32 mem (a + 4)

def tagFuel : ℕ := 2 ^ 61

def nextTag (mem : Memory) (tag : ℕ) : ℕ := alignUp (u64 (tag + get32 mem (tag + 4))) 8

/-- The loop of `multiboot_get_tag`: the tag, or `some none` if there is none of the type. -/
def multibootGetTag (mem : Memory) (type : ℕ) : ℕ → ℕ → Option (Option ℕ)
  | 0, _ => none
  | fuel + 1, tag =>
    if get32 mem tag = tagTypeEnd then some none
    else if get32 mem tag = type then some (some tag)
    else multibootGetTag mem type fuel (nextTag mem tag)

def entryLoop {σ : Type} (body : ℕ → σ → σ) (entrySize stop : ℕ) : ℕ → ℕ → σ → Option σ
  | 0, _, _ => none
  | fuel + 1, entry, s =>
    if entry < stop then entryLoop body entrySize stop fuel (u64 (entry + entrySize)) (body entry s)
    else some s

def raiseHighest (mem : Memory) (entry highest : ℕ) : ℕ :=
  let top := u64 (get64 mem entry + get64 mem (entry + 8))
  if top > highest then top else highest

def markEntry (mem : Memory) (entry : ℕ) (s : Pmm) : Pmm :=
  if get32 mem (entry + 16) = memoryAvailable then
    let start := alignUp (get64 mem entry) pageSize
    let stop := alignDown (u64 (get64 mem entry + get64 mem (entry + 8))) pageSize
    if stop > start then pmmMarkRegionFree start (u64Sub stop start) s else s
  else s

def alignUp32 (x : ℕ) : ℕ := u32 (x + (pageSize - 1)) &&& (2 ^ 32 - pageSize)

def moduleLoop (mem : Memory) : ℕ → ℕ → Pmm → Option Pmm
  | 0, _, _ => none
  | fuel + 1, tag, s =>
    if get32 mem tag = tagTypeEnd then some s
    else
      let start := get32 mem (tag + 8)
      let stop := get32 mem (tag + 12)
      let s := if get32 mem tag = tagTypeModule ∧ stop > start then
          pmmMarkRegionUsed start (alignUp (stop - start) pageSize) s
        else s
      moduleLoop mem fuel (nextTag mem tag) s

def mbiPhys (mbi : ℕ) : ℕ :=
  if mbi ≥ kernelPhysMapBase then mbi - kernelPhysMapBase
  else if mbi ≥ kernelVirtBase then mbi - kernelVirtBase
  else mbi

/-- Where the kernel is loaded. -/
structure KernelImage where
  start : ℕ
  stop : ℕ
  start_lt : start < stop
  stop_le : stop ≤ 2 ^ 64 - kernelVirtBase

/-- `physmem_init`; `none` if it panics or does not end. -/
def physmemInit (mem : Memory) (kernel : KernelImage) (magic mbi : ℕ) (s : Pmm) : Option Pmm :=
  if magic ≠ multiboot2Magic then none
  else
    match multibootGetTag mem tagTypeMmap tagFuel (u64 (mbi + 8)) with
    | none | some none => none
    | some (some tag) =>
      let entry := u64 (tag + 16)
      let stop := u64 (tag + get32 mem (tag + 4))
      let entrySize := get32 mem (tag + 8)
      match entryLoop (raiseHighest mem) entrySize stop tagFuel entry 0 with
      | none => none
      | some highest =>
        let s := pmmInitBitmap (highest / pageSize) s
        match entryLoop (markEntry mem) entrySize stop tagFuel entry s with
        | none => none
        | some s =>
          let s := pmmMarkRegionUsed 0 0x100000 s
          let s := pmmMarkRegionUsed kernel.start (kernel.stop - kernel.start) s
          let s := pmmMarkRegionUsed (mbiPhys mbi) (alignUp32 (get32 mem mbi)) s
          moduleLoop mem tagFuel (u64 (mbi + 8)) s

/-- The header of a multiboot2 tag. -/
structure Tag where
  addr : ℕ
  type : ℕ
  size : ℕ

def WfTags (mem : Memory) : ℕ → List Tag → Prop
  | a, [] => get32 mem a = tagTypeEnd
  | a, t :: tags => t.addr = a ∧ t.type = get32 mem a ∧ t.type ≠ tagTypeEnd ∧
      t.size = get32 mem (a + 4) ∧ 8 ≤ t.size ∧ a + t.size + 7 < 2 ^ 64 ∧
      WfTags mem ((a + t.size + 7) / 8 * 8) tags

/-- An entry of the memory map. -/
structure Entry where
  addr : ℕ
  len : ℕ
  type : ℕ

def WfEntries (mem : Memory) (entrySize stop : ℕ) : ℕ → List Entry → Prop
  | a, [] => a = stop
  | a, e :: entries => e.addr = get64 mem a ∧ e.len = get64 mem (a + 8) ∧
      e.type = get32 mem (a + 16) ∧ WfEntries mem entrySize stop (a + entrySize) entries

/-- A well-formed information block: its tags, and the entries of its (first) memory map, none of
which wraps around. -/
structure Multiboot (mem : Memory) (mbi : ℕ) where
  tags : List Tag
  mmap : Tag
  entries : List Entry
  tags_wf : WfTags mem (mbi + 8) tags
  mmap_eq : tags.find? (fun t => t.type == tagTypeMmap) = some mmap
  entrySize : 24 ≤ get32 mem (mmap.addr + 8)
  entries_wf : WfEntries mem (get32 mem (mmap.addr + 8)) (mmap.addr + mmap.size) (mmap.addr + 16) entries
  no_wrap : ∀ e ∈ entries, e.addr + e.len < 2 ^ 64
  in_memory : mbi + get32 mem mbi ≤ 2 ^ 64
  size_pos : 8 < get32 mem mbi

end Physmem

/-! ## Marking regions -/

namespace Pmm

variable {s : Pmm} {pfn f : ℕ}

/-- Exactly the frames of `F` are free. -/
structure IsFree (s t : Pmm) (F : ℕ → Prop) : Prop where
  inv : t.Inv
  managed : ∀ f, t.Managed f ↔ s.Managed f
  free : ∀ f, t.FrameFree f ↔ F f

lemma IsFree.congr {t : Pmm} {F G : ℕ → Prop} (h : IsFree s t F)
    (hF : ∀ f, s.Managed f → (F f ↔ G f)) (hG : ∀ f, G f → s.Managed f) : IsFree s t G where
  inv := h.inv
  managed := h.managed
  free := fun f => by
    constructor
    · intro hf
      have hm := (h.managed f).mp (frameFree_iff.mp hf).1
      exact (hF f hm).mp ((h.free f).mp hf)
    intro hf
    exact (h.free f).mpr ((hF f (hG f hf)).mpr hf)

lemma IsFree.refl (hs : s.Inv) : IsFree s s s.FrameFree := ⟨hs, fun _ => .rfl, fun _ => .rfl⟩

lemma markFrameFree_free (hs : s.Inv) (pfn : ℕ) :
    IsFree s (markFrameFree pfn s) fun f => s.FrameFree f ∨ f = pfn ∧ s.Managed pfn := by
  obtain he | ⟨z, hg⟩ := markFrameFree_cases hs pfn
  · have hfree : s.Managed pfn → s.FrameFree pfn := by
      intro hm
      refine frameFree_iff.mpr ⟨hm, ?_⟩
      obtain ⟨z, hz⟩ := hm
      by_contra hb
      rw [Bool.not_eq_false] at hb
      have hclear : bitmapTest (markFrameFree pfn s).bitmap pfn = false := by
        rw [markFrameFree, hs.pfnToZone_eq_some.mpr hz]
        simp [hb]
      rw [he, hb] at hclear
      exact Bool.noConfusion hclear
    rw [he]
    exact ⟨hs, fun f => .rfl, fun f => ⟨.inl, fun h => h.elim id fun h => h.1 ▸ hfree h.2⟩⟩
  refine ⟨hs.gives hg, fun f => hg.layout.managed_iff, fun f => ?_⟩
  rw [frameFree_iff, hg.layout.managed_iff, hg.bits, frameFree_iff]
  by_cases hf : f = pfn
  · subst hf
    have hm : s.Managed f := ⟨z, hg.lower, hg.upper⟩
    simp [hm]
  · simp [hf]

lemma markFrameUsed_free (hs : s.Inv) (pfn : ℕ) :
    IsFree s (markFrameUsed pfn s) fun f => s.FrameFree f ∧ f ≠ pfn := by
  obtain he | ⟨z, ht⟩ := markFrameUsed_cases hs pfn
  · have hused : ¬ s.FrameFree pfn := by
      intro hf
      obtain ⟨⟨z, hz⟩, hb⟩ := frameFree_iff.mp hf
      have hset : bitmapTest (markFrameUsed pfn s).bitmap pfn = true := by
        rw [markFrameUsed, hs.pfnToZone_eq_some.mpr hz]
        simp [hb]
      rw [he, hb] at hset
      exact Bool.noConfusion hset
    rw [he]
    exact ⟨hs, fun f => .rfl, fun f => ⟨fun h => ⟨h, fun hf => hused (hf ▸ h)⟩, And.left⟩⟩
  refine ⟨hs.takes ht, fun f => ht.layout.managed_iff, fun f => ?_⟩
  rw [frameFree_iff, ht.layout.managed_iff, ht.bits, frameFree_iff]
  by_cases hf : f = pfn <;> simp [hf]

lemma forRange_markFrameFree (hs : s.Inv) (i n : ℕ) : IsFree s (forRange markFrameFree i n s) fun f =>
      s.FrameFree f ∨ (i ≤ f ∧ f < i + n) ∧ s.Managed f := by
  refine forRange_inv (fun k t => IsFree s t fun f =>
    s.FrameFree f ∨ (i ≤ f ∧ f < k) ∧ s.Managed f) ⟨hs, fun f => .rfl, fun f => ?_⟩ ?_
  · exact ⟨.inl, fun h => h.elim id fun h => absurd h.1.2 (not_lt.mpr h.1.1)⟩
  intro k t h1 _ ht
  have hk := markFrameFree_free ht.inv k
  refine ⟨hk.inv, fun f => (hk.managed f).trans (ht.managed f), fun f => ?_⟩
  rw [hk.free, ht.free, ht.managed]
  constructor
  · rintro ((hf | ⟨hf, hm⟩) | ⟨rfl, hm⟩)
    · exact .inl hf
    · exact .inr ⟨⟨hf.1, by omega⟩, hm⟩
    · exact .inr ⟨⟨h1, by omega⟩, hm⟩
  rintro (hf | ⟨⟨h2, h3⟩, hm⟩)
  · exact .inl (.inl hf)
  obtain h3 | rfl := Nat.lt_succ_iff_lt_or_eq.mp h3
  · exact .inl (.inr ⟨⟨h2, h3⟩, hm⟩)
  · exact .inr ⟨rfl, hm⟩

lemma forRange_markFrameUsed (hs : s.Inv) (i n : ℕ) :
    IsFree s (forRange markFrameUsed i n s) fun f => s.FrameFree f ∧ ¬ (i ≤ f ∧ f < i + n) := by
  refine forRange_inv (fun k t => IsFree s t fun f => s.FrameFree f ∧ ¬ (i ≤ f ∧ f < k))
    ⟨hs, fun f => .rfl, fun f => ?_⟩ ?_
  · exact ⟨fun h => ⟨h, fun h => absurd h.2 (not_lt.mpr h.1)⟩, And.left⟩
  intro k t h1 _ ht
  have hk := markFrameUsed_free ht.inv k
  refine ⟨hk.inv, fun f => (hk.managed f).trans (ht.managed f), fun f => ?_⟩
  rw [hk.free, ht.free, and_assoc]
  refine and_congr_right fun _ => ⟨fun h h' => ?_, fun h => ⟨fun h' => ?_, fun h' => ?_⟩⟩
  · exact h.1 ⟨h'.1, by omega⟩
  · exact h ⟨h'.1, by omega⟩
  · exact h ⟨by omega, by omega⟩

end Pmm

def Extent (a b f : ℕ) : Prop := a / 4096 ≤ f ∧ f < (b + 4095) / 4096

namespace Pmm

variable {s : Pmm}

lemma alignUp_page (hx : x + 4095 < 2 ^ 64) : alignUp x pageSize = (x + 4095) / 4096 * 4096 := by
  have h := alignUp_two_pow (show x + (2 ^ 12 - 1) < 2 ^ 64 from hx) (show 12 ≤ 64 by decide)
  norm_num at h
  exact h

lemma alignDown_eq_mul (hx : x < 2 ^ 64) : alignDown x pageSize = x / 4096 * 4096 := by
  have h := alignDown_two_pow hx (show 12 ≤ 64 by decide)
  norm_num at h
  exact h

lemma physToPfn_alignUp (hx : x + 4095 < 2 ^ 64) :
    physToPfn (alignUp x pageSize) = (x + 4095) / 4096 := by
  rw [alignUp_page hx, physToPfn, Nat.shiftRight_eq_div_pow]
  omega

lemma physToPfn_alignDown (hx : x < 2 ^ 64) : physToPfn (alignDown x pageSize) = x / 4096 := by
  rw [alignDown_eq_mul hx, physToPfn, Nat.shiftRight_eq_div_pow]
  omega

lemma markRegionFree_free (hs : s.Inv) (hb : base + 4095 < 2 ^ 64) (hsum : base + size < 2 ^ 64) :
    IsFree s (pmmMarkRegionFree base size s) fun f => s.FrameFree f ∨
      ((base + 4095) / 4096 ≤ f ∧ f < (base + size) / 4096) ∧ s.Managed f := by
  rw [pmmMarkRegionFree, u64_of_lt hsum, physToPfn_alignUp hb, physToPfn_alignDown hsum]
  split_ifs with hle
  · refine ⟨hs, fun f => .rfl, fun f => ⟨.inl, fun h => h.elim id fun h => ?_⟩⟩
    omega
  have hloop := forRange_markFrameFree hs ((base + 4095) / 4096) ((base + size) / 4096 - (base + 4095) / 4096)
  rwa [Nat.add_sub_cancel' (Nat.le_of_lt (Nat.lt_of_not_le hle))] at hloop

lemma markRegionUsed_free (hs : s.Inv) (hsum : base + size + 4095 < 2 ^ 64) :
    IsFree s (pmmMarkRegionUsed base size s) fun f =>
      s.FrameFree f ∧ ¬ Extent base (base + size) f := by
  have h1 : base + size < 2 ^ 64 := lt_of_le_of_lt le_self_add hsum
  have h2 : base < 2 ^ 64 := lt_of_le_of_lt le_self_add h1
  rw [pmmMarkRegionUsed, u64_of_lt h1, physToPfn_alignUp hsum, physToPfn_alignDown h2]
  have hloop := forRange_markFrameUsed hs (base / 4096) ((base + size + 4095) / 4096 - base / 4096)
  have hle : base / 4096 ≤ (base + size + 4095) / 4096 := Nat.div_le_div_right (by omega)
  rwa [Nat.add_sub_cancel' hle] at hloop

lemma initBitmap_free (numPages : ℕ) : IsFree (pmmInitBitmap numPages pmmStatic)
    (pmmInitBitmap numPages pmmStatic) fun _ => False := by
  refine ⟨pmmInitBitmap_inv numPages none 0, fun f => .rfl, fun f => ⟨fun hf => ?_, False.elim⟩⟩
  have hbit := (frameFree_iff.mp hf).2
  have hused : bitmapTest (fun _ => BitVec.allOnes 32) f = true := by
    rw [bitmapTest_eq, BitVec.getLsbD_allOnes]
    exact decide_eq_true (Nat.mod_lt _ (by norm_num))
  exact absurd (hbit.symm.trans hused) Bool.false_ne_true

lemma initBitmap_managed (numPages f : ℕ) :
    (pmmInitBitmap numPages pmmStatic).Managed f ↔ f < min numPages maxBitmapPages := by
  have hzones : ∀ t : Pmm, t.Managed f ↔ ((t.zones .dma).startPfn ≤ f ∧ f < (t.zones .dma).endPfn) ∨
      ((t.zones .normal).startPfn ≤ f ∧ f < (t.zones .normal).endPfn) ∨
      ((t.zones .high).startPfn ≤ f ∧ f < (t.zones .high).endPfn) := by
    intro t
    constructor
    · rintro ⟨z, hz⟩
      cases z
      · exact .inl hz
      · exact .inr (.inl hz)
      · exact .inr (.inr hz)
    rintro (hz | hz | hz)
    · exact ⟨_, hz⟩
    · exact ⟨_, hz⟩
    · exact ⟨_, hz⟩
  have hmax : maxBitmapPages = 0x100000 := rfl
  have htotal : (if numPages > maxBitmapPages then maxBitmapPages else numPages) =
      min numPages maxBitmapPages := by
    split_ifs <;> omega
  rw [hzones, pmmInitBitmap]
  dsimp only
  rw [htotal]
  have hle : min numPages maxBitmapPages ≤ 0x100000 := min_le_right _ _
  generalize min numPages maxBitmapPages = total at hle ⊢
  have hhigh : ¬ total > 0x100000 := not_lt.mpr hle
  rw [if_neg hhigh]
  split_ifs with hnormal
  · simp only [pmmStatic, BitVec.ofNat_eq_ofNat, ne_eq, reduceCtorEq, not_false_eq_true,
      Function.update_of_ne, zero_le, true_and, Function.update_self]
    omega
  · simp [pmmStatic]

end Pmm

namespace Physmem

open Pmm

variable {mem : Memory} {mbi : ℕ}

lemma get32_lt (mem : Memory) (a : ℕ) : get32 mem a < 2 ^ 32 := by
  have h0 := (mem a).toNat_lt
  have h1 := (mem (a + 1)).toNat_lt
  have h2 := (mem (a + 2)).toNat_lt
  have h3 := (mem (a + 3)).toNat_lt
  rw [get32]
  omega

lemma WfTags.length_lt (h : WfTags mem a tags) (ha : a < 2 ^ 64) :
    a + 8 * tags.length < 2 ^ 64 := by
  induction tags generalizing a with
  | nil => exact ha
  | cons t tags ih =>
    obtain ⟨-, -, -, -, hsize, hlt, hrest⟩ := h
    have hnext := ih hrest (by omega)
    rw [length_cons]
    omega

lemma nextTag_eq (hsize : size = get32 mem (a + 4)) (hlt : a + size + 7 < 2 ^ 64) :
    nextTag mem a = (a + size + 7) / 8 * 8 := by
  have h8 : (8 : ℕ) = 2 ^ 3 := rfl
  have hsum : a + size + (2 ^ 3 - 1) < 2 ^ 64 := hlt
  rw [nextTag, ← hsize, u64_of_lt (by omega), h8, alignUp_two_pow hsum (by decide)]
  rfl

lemma WfTags.of_mem (h : WfTags mem a tags) {t : Tag} (ht : t ∈ tags) :
    t.type = get32 mem t.addr ∧ t.size = get32 mem (t.addr + 4) ∧ t.addr + t.size + 7 < 2 ^ 64 := by
  induction tags generalizing a with
  | nil => exact absurd ht not_mem_nil
  | cons t' tags ih =>
    obtain ⟨haddr, htype, -, hsize, -, hlt, hrest⟩ := h
    obtain rfl | ht := mem_cons.mp ht
    · rw [haddr]
      exact ⟨htype, hsize, hlt⟩
    · exact ih hrest ht

lemma WfTags.getTag {type : ℕ} (h : WfTags mem a tags) (hfuel : tags.length < fuel) :
    multibootGetTag mem type fuel a = some ((tags.find? fun t => t.type == type).map Tag.addr) := by
  induction tags generalizing a fuel with
  | nil =>
    obtain ⟨fuel, rfl⟩ := Nat.exists_eq_add_of_lt hfuel
    have hend : get32 mem a = tagTypeEnd := h
    rw [multibootGetTag, if_pos hend]
    rfl
  | cons t tags ih =>
    obtain ⟨haddr, htype, hne, hsize, -, hlt, hrest⟩ := h
    obtain ⟨fuel, rfl⟩ := Nat.exists_eq_add_of_lt hfuel
    rw [multibootGetTag, ← htype, if_neg hne, find?_cons, nextTag_eq hsize hlt]
    split_ifs with heq
    · rw [beq_iff_eq.mpr heq, ← haddr]
      rfl
    rw [beq_false_of_ne heq]
    exact ih hrest (Nat.lt_of_succ_lt_succ hfuel)

def markModule (mem : Memory) (s : Pmm) (t : Tag) : Pmm :=
  if t.type = tagTypeModule ∧ get32 mem (t.addr + 12) > get32 mem (t.addr + 8) then
    pmmMarkRegionUsed (get32 mem (t.addr + 8))
      (alignUp (get32 mem (t.addr + 12) - get32 mem (t.addr + 8)) pageSize) s
  else s

lemma WfTags.moduleLoop (h : WfTags mem a tags) (hfuel : tags.length < fuel) (s : Pmm) :
    Physmem.moduleLoop mem fuel a s = some (tags.foldl (markModule mem) s) := by
  induction tags generalizing a fuel s with
  | nil =>
    obtain ⟨fuel, rfl⟩ := Nat.exists_eq_add_of_lt hfuel
    have hend : get32 mem a = tagTypeEnd := h
    rw [Physmem.moduleLoop, if_pos hend]
    rfl
  | cons t tags ih =>
    obtain ⟨haddr, htype, hne, hsize, -, hlt, hrest⟩ := h
    obtain ⟨fuel, rfl⟩ := Nat.exists_eq_add_of_lt hfuel
    rw [Physmem.moduleLoop, ← htype, if_neg hne, nextTag_eq hsize hlt]
    have hmark : markModule mem s t = if t.type = tagTypeModule ∧ get32 mem (a + 12) > get32 mem (a + 8)
        then pmmMarkRegionUsed (get32 mem (a + 8))
          (alignUp (get32 mem (a + 12) - get32 mem (a + 8)) pageSize) s else s := by
      rw [← haddr]
      rfl
    rw [foldl_cons, hmark]
    exact ih hrest (Nat.lt_of_succ_lt_succ hfuel) _

lemma WfEntries.stop_eq
    (h : WfEntries mem entrySize stop a entries) : a + entrySize * entries.length = stop := by
  induction entries generalizing a with
  | nil => exact h
  | cons e entries ih =>
    obtain ⟨-, -, -, hrest⟩ := h
    rw [← ih hrest, length_cons, Nat.mul_succ]
    omega

lemma WfEntries.entryLoop {σ : Type} {body : ℕ → σ → σ} {g : σ → Entry → σ} (h : WfEntries mem entrySize stop a entries)
    (hsize : 0 < entrySize) (hstop : stop < 2 ^ 64) (hfuel : entries.length < fuel)
    (hbody : ∀ a s, ∀ e ∈ entries, e.addr = get64 mem a → e.len = get64 mem (a + 8) →
      e.type = get32 mem (a + 16) → body a s = g s e) (s : σ) :
    Physmem.entryLoop body entrySize stop fuel a s = some (entries.foldl g s) := by
  induction entries generalizing a fuel s with
  | nil =>
    obtain ⟨fuel, rfl⟩ := Nat.exists_eq_add_of_lt hfuel
    have hend : a = stop := h
    rw [Physmem.entryLoop, if_neg (not_lt.mpr hend.ge)]
    rfl
  | cons e entries ih =>
    obtain ⟨fuel, rfl⟩ := Nat.exists_eq_add_of_lt hfuel
    obtain ⟨haddr, hlen, htype, hrest⟩ := h
    have hle : a + entrySize ≤ stop := hrest.stop_eq ▸ Nat.le_add_right _ _
    rw [Physmem.entryLoop, if_pos (by omega), u64_of_lt (by omega), hbody a s e mem_cons_self haddr hlen htype]
    exact ih hrest (Nat.lt_of_succ_lt_succ hfuel) (fun a s e he => hbody a s e (mem_cons_of_mem _ he)) _

def Entry.Available (e : Entry) : Prop := e.type = memoryAvailable

def Entry.Contains (e : Entry) (f : ℕ) : Prop :=
  e.addr ≤ f * 4096 ∧ (f + 1) * 4096 ≤ e.addr + e.len

def highestAddr (entries : List Entry) : ℕ := entries.foldl (fun h e => max h (e.addr + e.len)) 0

namespace Multiboot

variable (b : Multiboot mem mbi)

def limit : ℕ := min (highestAddr b.entries / 4096) maxBitmapPages

def Promised (f : ℕ) : Prop := ∃ e ∈ b.entries, e.Available ∧ e.Contains f

def modules : List (ℕ × ℕ) :=
  ((b.tags.filter fun t => t.type == tagTypeModule).map fun t =>
    (get32 mem (t.addr + 8), get32 mem (t.addr + 12))).filter fun m => m.1 < m.2

def Reserved (kernel : KernelImage) (phys f : ℕ) : Prop :=
  Extent 0 0x100000 f ∨ Extent kernel.start kernel.stop f ∨ Extent phys (phys + get32 mem mbi) f ∨
    ∃ m ∈ b.modules, Extent m.1 m.2 f

def Marked (kernel : KernelImage) (phys f : ℕ) : Prop :=
  Extent 0 0x100000 f ∨ Extent kernel.start kernel.stop f ∨ Extent phys (phys + alignUp32 (get32 mem mbi)) f ∨
    ∃ m ∈ b.modules, Extent m.1 (m.1 + (m.2 - m.1 + 4095) / 4096 * 4096) f

def Top : Prop := ∃ e ∈ b.entries, e.Available ∧ 2 ^ 64 ≤ e.addr + 4095

end Multiboot

def freeEntry (s : Pmm) (e : Entry) : Pmm :=
  if e.type = memoryAvailable then
    let start := alignUp e.addr pageSize
    let stop := alignDown (e.addr + e.len) pageSize
    if stop > start then pmmMarkRegionFree start (u64Sub stop start) s else s
  else s

lemma managed_lt {s : Pmm} (hs : s.Inv) {f : ℕ} (hf : s.Managed f) : f < 0x100000 := by
  obtain ⟨z, hz⟩ := hf
  exact hz.2.trans_le (hs.end_le z)

lemma alignUp_top (hx : x < 2 ^ 64) (htop : 2 ^ 64 ≤ x + 4095) : alignUp x pageSize = 0 := by
  have hu : u64 (x + (pageSize - 1)) = x + 4095 - 2 ^ 64 := by
    rw [u64, pageSize]
    omega
  rw [alignUp, hu, alignDown_eq_mul (by omega)]
  omega

lemma freeEntry_free {s : Pmm} (hs : s.Inv) {e : Entry} (he : e.addr + e.len < 2 ^ 64) :
    IsFree s (freeEntry s e) fun f => s.FrameFree f ∨
      (e.Available ∧ (e.Contains f ∨ 2 ^ 64 ≤ e.addr + 4095)) ∧ s.Managed f := by
  have hG : ∀ f, (s.FrameFree f ∨ (e.Available ∧ (e.Contains f ∨ 2 ^ 64 ≤ e.addr + 4095)) ∧ s.Managed f) →
      s.Managed f := fun f hf => hf.elim (fun h => (frameFree_iff.mp h).1) And.right
  rw [freeEntry]
  dsimp only
  have hT := alignDown_eq_mul he
  generalize alignDown (e.addr + e.len) pageSize = T at hT ⊢
  by_cases havail : e.type = memoryAvailable
  · rw [if_pos havail]
    by_cases htop : 2 ^ 64 ≤ e.addr + 4095
    · have hT0 : T > 0 := by omega
      have hsub : u64Sub T 0 = T := u64Sub_of_le (Nat.zero_le _) (by omega)
      have hsum : 0 + T < 2 ^ 64 := by omega
      rw [alignUp_top (by omega) htop, if_pos hT0, hsub]
      refine (markRegionFree_free hs (by decide) hsum).congr (fun f hm => ?_) hG
      have hf := managed_lt hs hm
      refine or_congr .rfl (and_congr ⟨fun _ => ⟨havail, .inr htop⟩, fun _ => ?_⟩ .rfl)
      omega
    have hS := alignUp_page (Nat.lt_of_not_le htop)
    generalize alignUp e.addr pageSize = S at hS ⊢
    split_ifs with hlt
    · have hsub : u64Sub T S = T - S := u64Sub_of_le (le_of_lt hlt) (by omega)
      have hb : S + 4095 < 2 ^ 64 := by omega
      have hsum : S + (T - S) < 2 ^ 64 := by omega
      rw [hsub]
      refine (markRegionFree_free hs hb hsum).congr (fun f hm => ?_) hG
      refine or_congr .rfl (and_congr ⟨fun hf => ⟨havail, .inl ⟨by omega, by omega⟩⟩, ?_⟩ .rfl)
      rintro ⟨-, ⟨h1, h2⟩ | hf⟩
      · omega
      · exact absurd hf htop
    refine (IsFree.refl hs).congr (fun f hm => ⟨.inl, ?_⟩) hG
    rintro (hf | ⟨⟨-, ⟨h1, h2⟩ | hf⟩, -⟩)
    · exact hf
    · omega
    · exact absurd hf htop
  rw [if_neg havail]
  exact (IsFree.refl hs).congr (fun f hm => ⟨.inl, fun h => h.elim id fun h => absurd h.1.1 havail⟩) hG

lemma foldl_freeEntry {s : Pmm} (hs : s.Inv) (hwrap : ∀ e ∈ entries, e.addr + e.len < 2 ^ 64) :
    IsFree s (entries.foldl freeEntry s) fun f => s.FrameFree f ∨
      (∃ e ∈ entries, e.Available ∧ (e.Contains f ∨ 2 ^ 64 ≤ e.addr + 4095)) ∧ s.Managed f := by
  induction entries generalizing s with
  | nil => exact ⟨hs, fun _ => .rfl, fun f => ⟨.inl, fun h => h.elim id (by simp)⟩⟩
  | cons e entries ih =>
    have h1 := freeEntry_free hs (hwrap e mem_cons_self)
    have h2 := ih h1.inv fun e he => hwrap e (mem_cons_of_mem _ he)
    refine ⟨h2.inv, fun f => (h2.managed f).trans (h1.managed f), fun f => ?_⟩
    rw [foldl_cons, h2.free, h1.free, h1.managed, or_assoc, ← or_and_right]
    simp only [exists_mem_cons_iff]

lemma markModule_free (mem : Memory) {s : Pmm} (hs : s.Inv) (t : Tag) :
    IsFree s (markModule mem s t) fun f => s.FrameFree f ∧
      (t.type = tagTypeModule → get32 mem (t.addr + 8) < get32 mem (t.addr + 12) →
        ¬ Extent (get32 mem (t.addr + 8)) (get32 mem (t.addr + 8) +
          (get32 mem (t.addr + 12) - get32 mem (t.addr + 8) + 4095) / 4096 * 4096) f) := by
  have h1 := get32_lt mem (t.addr + 8)
  have h2 := get32_lt mem (t.addr + 12)
  rw [markModule]
  split_ifs with hmod
  · rw [alignUp_page (by omega)]
    have hused := markRegionUsed_free hs (show get32 mem (t.addr + 8) +
      (get32 mem (t.addr + 12) - get32 mem (t.addr + 8) + 4095) / 4096 * 4096 + 4095 < 2 ^ 64 by omega)
    refine ⟨hused.inv, hused.managed, fun f => (hused.free f).trans ?_⟩
    exact and_congr_right fun _ => ⟨fun h _ _ => h, fun h => h hmod.1 hmod.2⟩
  refine ⟨hs, fun _ => .rfl, fun f => ⟨fun h => ⟨h, fun h3 h4 => ?_⟩, And.left⟩⟩
  exact absurd ⟨h3, h4⟩ hmod

lemma foldl_markModule (mem : Memory) {s : Pmm} (hs : s.Inv) (tags : List Tag) :
    IsFree s (tags.foldl (markModule mem) s) fun f => s.FrameFree f ∧
      ∀ t ∈ tags, t.type = tagTypeModule → get32 mem (t.addr + 8) < get32 mem (t.addr + 12) →
        ¬ Extent (get32 mem (t.addr + 8)) (get32 mem (t.addr + 8) +
          (get32 mem (t.addr + 12) - get32 mem (t.addr + 8) + 4095) / 4096 * 4096) f := by
  induction tags generalizing s with
  | nil => exact ⟨hs, fun _ => .rfl, fun f => ⟨fun h => ⟨h, by simp⟩, And.left⟩⟩
  | cons t tags ih =>
    have h1 := markModule_free mem hs t
    have h2 := ih h1.inv
    refine ⟨h2.inv, fun f => (h2.managed f).trans (h1.managed f), fun f => ?_⟩
    rw [foldl_cons, h2.free, h1.free, and_assoc, forall_mem_cons]

/-! ## The whole function -/

namespace Multiboot

variable (b : Multiboot mem mbi) {kernel : KernelImage} {phys f : ℕ}

lemma mem_modules {m : ℕ × ℕ} : m ∈ b.modules ↔ m.1 < m.2 ∧ ∃ t ∈ b.tags,
    t.type = tagTypeModule ∧ (get32 mem (t.addr + 8), get32 mem (t.addr + 12)) = m := by
  simp only [modules, mem_filter, mem_map, decide_eq_true_eq, beq_iff_eq, and_assoc]
  exact and_comm

lemma not_exists_module (E : ℕ → ℕ → Prop) : (¬ ∃ m ∈ b.modules, E m.1 m.2) ↔
    ∀ t ∈ b.tags, t.type = tagTypeModule → get32 mem (t.addr + 8) < get32 mem (t.addr + 12) →
      ¬ E (get32 mem (t.addr + 8)) (get32 mem (t.addr + 12)) := by
  constructor
  · intro h t ht hmod hlt hE
    exact h ⟨_, b.mem_modules.mpr ⟨hlt, t, ht, hmod, rfl⟩, hE⟩
  rintro h ⟨m, hm, hE⟩
  obtain ⟨hlt, t, ht, hmod, rfl⟩ := b.mem_modules.mp hm
  exact h t ht hmod hlt hE

lemma tags_length : b.tags.length < tagFuel := by
  have h1 := b.in_memory
  have h2 := b.size_pos
  have h3 := b.tags_wf.length_lt (by omega)
  rw [tagFuel]
  omega

lemma mmap_facts : b.mmap.size = get32 mem (b.mmap.addr + 4) ∧
    b.mmap.addr + b.mmap.size < 2 ^ 64 ∧ b.mmap.addr + 16 ≤ b.mmap.addr + b.mmap.size ∧
    b.entries.length < tagFuel := by
  obtain ⟨-, hsize, hlt⟩ := b.tags_wf.of_mem (mem_of_find?_eq_some b.mmap_eq)
  have hstop := b.entries_wf.stop_eq
  have hpos := b.entrySize
  have hmul : 24 * b.entries.length ≤ get32 mem (b.mmap.addr + 8) * b.entries.length :=
    Nat.mul_le_mul_right _ hpos
  refine ⟨hsize, by omega, by omega, ?_⟩
  rw [tagFuel]
  omega

def mapped : Pmm := b.entries.foldl freeEntry (pmmInitBitmap (highestAddr b.entries / 4096) pmmStatic)

lemma mapped_free : IsFree (pmmInitBitmap (highestAddr b.entries / 4096) pmmStatic) b.mapped
    fun f => f < b.limit ∧ (b.Promised f ∨ b.Top) := by
  have hinit := initBitmap_free (highestAddr b.entries / 4096)
  have hfold := foldl_freeEntry hinit.inv b.no_wrap
  refine ⟨hfold.inv, hfold.managed, fun f => (hfold.free f).trans ?_⟩
  rw [hinit.free, false_or, initBitmap_managed, and_comm]
  refine and_congr .rfl ?_
  simp only [and_or_left, exists_or]
  rfl

lemma physmemInit_free (kernel : KernelImage) (hphys : mbiPhys mbi = phys) (hp : phys + 2 ^ 33 < 2 ^ 64) :
    ∃ s, physmemInit mem kernel multiboot2Magic mbi pmmStatic = some s ∧ s.Inv ∧ (∀ f, s.Managed f ↔ f < b.limit) ∧
      ∀ f, s.FrameFree f ↔ f < b.limit ∧ (b.Promised f ∨ b.Top) ∧ ¬ b.Marked kernel phys f := by
  obtain ⟨hsize, hlt, h16, hlen⟩ := b.mmap_facts
  have hstart : u64 (mbi + 8) = mbi + 8 := by
    have h1 := b.in_memory
    have h2 := b.size_pos
    exact u64_of_lt (by omega)
  have hentry : u64 (b.mmap.addr + 16) = b.mmap.addr + 16 := u64_of_lt (by omega)
  have htag : multibootGetTag mem tagTypeMmap tagFuel (mbi + 8) = some (some b.mmap.addr) := by
    rw [b.tags_wf.getTag b.tags_length, b.mmap_eq]
    rfl
  have hpos : 0 < get32 mem (b.mmap.addr + 8) := lt_of_lt_of_le (by decide) b.entrySize
  have hhigh : entryLoop (raiseHighest mem) (get32 mem (b.mmap.addr + 8))
      (b.mmap.addr + b.mmap.size) tagFuel (b.mmap.addr + 16) 0 = some (highestAddr b.entries) := by
    refine b.entries_wf.entryLoop hpos hlt hlen (fun a h e he haddr hl _ => ?_) 0
    rw [raiseHighest, ← haddr, ← hl, u64_of_lt (b.no_wrap e he)]
    split_ifs <;> omega
  have hmap : entryLoop (markEntry mem) (get32 mem (b.mmap.addr + 8)) (b.mmap.addr + b.mmap.size)
      tagFuel (b.mmap.addr + 16) (pmmInitBitmap (highestAddr b.entries / 4096) pmmStatic) =
        some b.mapped := by
    refine b.entries_wf.entryLoop hpos hlt hlen (fun a s e he haddr hl ht => ?_) _
    rw [markEntry, ← haddr, ← hl, ← ht, u64_of_lt (b.no_wrap e he)]
    rfl
  have hkernel := kernel.stop_le
  have hkernel' := kernel.start_lt
  have hround : alignUp32 (get32 mem mbi) < 2 ^ 32 := by
    have : alignUp32 (get32 mem mbi) ≤ 2 ^ 32 - pageSize := Nat.and_le_right
    rw [pageSize] at this
    omega
  have h1 := markRegionUsed_free b.mapped_free.inv (show 0 + 0x100000 + 4095 < 2 ^ 64 by decide)
  have h2 := markRegionUsed_free h1.inv (show kernel.start + (kernel.stop - kernel.start) + 4095 < 2 ^ 64 by
      rw [kernelVirtBase] at hkernel
      omega)
  have h3 := markRegionUsed_free h2.inv (show phys + alignUp32 (get32 mem mbi) + 4095 < 2 ^ 64 by omega)
  have h4 := foldl_markModule mem h3.inv b.tags
  refine ⟨_, ?_, h4.inv, fun f => ?_, fun f => ?_⟩
  · rw [physmemInit, if_neg (fun h => h rfl), hstart, htag]
    dsimp only
    rw [hentry, ← hsize, u64_of_lt hlt, hhigh]
    dsimp only
    have hpage : highestAddr b.entries / pageSize = highestAddr b.entries / 4096 := rfl
    rw [hpage, hmap]
    dsimp only
    rw [hphys, b.tags_wf.moduleLoop b.tags_length]
  · rw [h4.managed, h3.managed, h2.managed, h1.managed, b.mapped_free.managed, initBitmap_managed]
    rfl
  rw [h4.free, h3.free, h2.free, h1.free, b.mapped_free.free]
  have hk : kernel.start + (kernel.stop - kernel.start) = kernel.stop := by omega
  have hmod : (¬ ∃ m ∈ b.modules, Extent m.1 (m.1 + (m.2 - m.1 + 4095) / 4096 * 4096) f) ↔ _ :=
    b.not_exists_module fun start stop => Extent start (start + (stop - start + 4095) / 4096 * 4096) f
  rw [hk, zero_add, Marked, not_or, not_or, not_or, hmod]
  simp only [and_assoc]

/-- Rounding at boot neither adds nor drops a page. -/
structure Faithful (kernel : KernelImage) (phys : ℕ) : Prop where
  /-- Rounding up a size reserves no further page of available memory. -/
  spill : ∀ f < b.limit, b.Promised f → b.Marked kernel phys f → b.Reserved kernel phys f
  /-- The size of the block, rounded up in 32 bits, still reserves the block. -/
  block : ∀ f < b.limit, b.Promised f → b.Reserved kernel phys f → b.Marked kernel phys f
  /-- Memory in the last page of the address space adds nothing. -/
  top : b.Top → ∀ f < b.limit, b.Promised f ∨ b.Marked kernel phys f

end Multiboot

/-- The bytes of a block at `mbi` with one memory map, of one available entry from `0` to `0x110000`. -/
def infoBlock (mbi : ℕ) : Memory := fun a =>
  [56, 0, 0, 0, 0, 0, 0, 0, 6, 0, 0, 0, 40, 0, 0, 0, 24, 0, 0, 0, 0, 0, 0, 0,
    0, 0, 0, 0, 0, 0, 0, 0, 0, 0, 0x11, 0, 0, 0, 0, 0, 1, 0, 0, 0, 0, 0, 0, 0,
    0, 0, 0, 0, 8, 0, 0, 0].getD (a - mbi) 0

lemma get32_infoBlock (mbi k : ℕ) : get32 (infoBlock mbi) (mbi + k) = get32 (infoBlock 0) k := by
  simp only [get32, infoBlock, add_assoc, Nat.add_sub_cancel_left, Nat.sub_zero]

def smallInfo (mbi : ℕ) (h8 : mbi % 8 = 0) (hmbi : mbi < 2 ^ 63) : Multiboot (infoBlock mbi) mbi where
  tags := [⟨mbi + 8, 6, 40⟩]
  mmap := ⟨mbi + 8, 6, 40⟩
  entries := [⟨0, 0x110000, 1⟩]
  tags_wf := by
    have hend : (mbi + 8 + 40 + 7) / 8 * 8 = mbi + 48 := by omega
    have hlt : mbi + 8 + 40 + 7 < 2 ^ 64 := by omega
    refine ⟨rfl, (get32_infoBlock mbi 8).symm, nofun, (get32_infoBlock mbi 12).symm, Nat.le_add_left 8 32, hlt, ?_⟩
    have hnil : get32 (infoBlock mbi) ((mbi + 8 + 40 + 7) / 8 * 8) = tagTypeEnd := by
      rw [hend]
      exact get32_infoBlock mbi 48
    exact hnil
  mmap_eq := rfl
  entrySize := (get32_infoBlock mbi 16).symm ▸ (by decide)
  entries_wf := by
    have hsize : get32 (infoBlock mbi) (mbi + 8 + 8) = 24 := get32_infoBlock mbi 16
    rw [hsize]
    refine ⟨?_, ?_, ?_, rfl⟩
    · rw [get64, get32_infoBlock mbi 24, get32_infoBlock mbi 28]
      decide
    · rw [get64, get32_infoBlock mbi 32, get32_infoBlock mbi 36]
      decide
    · exact (get32_infoBlock mbi 40).symm
  no_wrap := by simp
  in_memory := by
    have hsize : get32 (infoBlock mbi) mbi = 56 := get32_infoBlock mbi 0
    omega
  size_pos := (get32_infoBlock mbi 0).symm ▸ (by decide)

def smallKernel : KernelImage := ⟨0x100000, 0x101000, by decide, by decide⟩

/-- **Main.** For an information block at a physical or a direct-map address: `physmem_init` returns,
and it leaves free the frames below the limit that lie in available memory and meet nothing that is
reserved, just when the rounding does no harm. -/
theorem boot_free_iff (b : Multiboot mem mbi) (kernel : KernelImage) {phys : ℕ}
    (hphys : mbi = phys ∧ phys < kernelPhysMapBase ∨ mbi = kernelPhysMapBase + phys) :
    (∃ s, physmemInit mem kernel multiboot2Magic mbi pmmStatic = some s ∧
      ∀ f, s.FrameFree f ↔ f < b.limit ∧ b.Promised f ∧ ¬ b.Reserved kernel phys f) ↔
      b.Faithful kernel phys := by
  have hmbi : mbi < 2 ^ 64 := by
    have h1 := b.in_memory
    have h2 := b.size_pos
    omega
  have hp : mbiPhys mbi = phys ∧ phys + 2 ^ 33 < 2 ^ 64 := by
    have hbase : kernelPhysMapBase = 0xFFFF888000000000 := rfl
    have hvirt : kernelVirtBase = 0xFFFFFFFF80000000 := rfl
    rw [mbiPhys]
    obtain ⟨rfl, hlt⟩ | rfl := hphys
    · rw [if_neg (by omega), if_neg (by omega)]
      exact ⟨rfl, by omega⟩
    rw [if_pos (by omega)]
    exact ⟨by omega, by omega⟩
  obtain ⟨s, hs, -, -, hfree⟩ := b.physmemInit_free kernel hp.1 hp.2
  constructor
  · rintro ⟨s', hs', hspec⟩
    obtain rfl := Option.some.inj (hs.symm.trans hs')
    have hiff := fun f => (hfree f).symm.trans (hspec f)
    refine ⟨fun f hf havail hm => ?_, fun f hf havail hr => ?_, fun htop f hf => ?_⟩
    · by_contra hr
      exact ((hiff f).mpr ⟨hf, havail, hr⟩).2.2 hm
    · by_contra hm
      exact ((hiff f).mp ⟨hf, .inl havail, hm⟩).2.2 hr
    by_cases hm : b.Marked kernel phys f
    · exact .inr hm
    · exact .inl ((hiff f).mp ⟨hf, .inr htop, hm⟩).2.1
  intro h
  refine ⟨s, hs, fun f => (hfree f).trans ?_⟩
  constructor
  · rintro ⟨hf, havail, hm⟩
    have hprom : b.Promised f := havail.elim id fun htop => (h.top htop f hf).resolve_right hm
    exact ⟨hf, hprom, fun hr => hm (h.block f hf hprom hr)⟩
  rintro ⟨hf, hprom, hr⟩
  exact ⟨hf, .inl hprom, fun hm => hr (h.spill f hf hprom hm)⟩

theorem boot_free_iff_small :
    (0x102000 = 0x102000 ∧ 0x102000 < kernelPhysMapBase ∨ 0x102000 = kernelPhysMapBase + 0x102000) ∧
    ∃ s, physmemInit (infoBlock 0x102000) smallKernel multiboot2Magic 0x102000 pmmStatic = some s ∧
      ∀ f, s.FrameFree f ↔ f < (smallInfo 0x102000 rfl (by decide)).limit ∧
        (smallInfo 0x102000 rfl (by decide)).Promised f ∧
        ¬ (smallInfo 0x102000 rfl (by decide)).Reserved smallKernel 0x102000 f := by
  have hphys : 0x102000 = 0x102000 ∧ 0x102000 < kernelPhysMapBase ∨
      0x102000 = kernelPhysMapBase + 0x102000 := by decide
  refine ⟨hphys, (boot_free_iff _ _ hphys).mpr ?_⟩
  have hiff : ∀ f, (smallInfo 0x102000 rfl (by decide)).Marked smallKernel 0x102000 f ↔
      (smallInfo 0x102000 rfl (by decide)).Reserved smallKernel 0x102000 f := by
    have hsize : alignUp32 (get32 (infoBlock 0x102000) 0x102000) = 4096 := by decide
    have hsize' : get32 (infoBlock 0x102000) 0x102000 = 56 := by decide
    intro f
    have hnone : (smallInfo 0x102000 rfl (by decide)).modules = [] := rfl
    rw [Multiboot.Marked, Multiboot.Reserved, hsize, hsize', hnone]
    simp [Extent]
  refine ⟨fun f _ _ => (hiff f).mp, fun f _ _ => (hiff f).mpr, ?_⟩
  rintro ⟨e, he, -, htop⟩
  obtain rfl := mem_singleton.mp he
  exact absurd htop (by decide)

theorem info_block_spills :
    ∃ s, physmemInit (infoBlock 0x102100) smallKernel multiboot2Magic 0x102100 pmmStatic = some s ∧
      ¬ s.FrameFree 0x103 ∧ 0x103 < (smallInfo 0x102100 rfl (by decide)).limit ∧
      (smallInfo 0x102100 rfl (by decide)).Promised 0x103 ∧
      ¬ (smallInfo 0x102100 rfl (by decide)).Reserved smallKernel 0x102100 0x103 := by
  obtain ⟨s, hs, -, -, hfree⟩ := (smallInfo 0x102100 rfl (by decide)).physmemInit_free smallKernel
    (show mbiPhys 0x102100 = 0x102100 by decide) (by decide)
  refine ⟨s, hs, fun h => ((hfree _).mp h).2.2 ?_, by decide, ?_, ?_⟩
  · exact .inr (.inr (.inl ⟨by decide, by decide⟩))
  · exact ⟨_, mem_singleton_self _, rfl, by decide, by decide⟩
  rintro (⟨-, h⟩ | ⟨-, h⟩ | ⟨-, h⟩ | ⟨m, hm, -⟩)
  · exact absurd h (by decide)
  · exact absurd h (by decide)
  · exact absurd h (by decide)
  · exact absurd hm not_mem_nil

end Physmem

end Obelisk
