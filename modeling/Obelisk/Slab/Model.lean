import Obelisk.Pmm.Model

/-!
# The kernel heap

The slab allocator of `kernel/mm/kmalloc.c` with the general-purpose allocator on top of it. A slab
is a run of pages that starts with its `struct slab`, followed by the objects and by the array that
links the free ones by index; a cache keeps its slabs on three lists.

Pointers are virtual addresses. The headers of the slabs and the descriptors of the caches are kept
in maps from addresses, the `list_head` lists are lists of addresses in list order. A `none` result
is a read through a dangling pointer, or a `panic`. Names, locks, the constructors of objects and the
byte counters of the statistics are left out.
-/

namespace Obelisk

open KLib Function

/-! ## State -/

def kernelPhysMapBase : ℕ := 0xFFFF888000000000

def physToVirt (addr : ℕ) : ℕ := u64 (addr + kernelPhysMapBase)

def virtToPhys (addr : ℕ) : ℕ := u64Sub addr kernelPhysMapBase

def uint32Max : ℕ := 2 ^ 32 - 1

def sizeofSlab : ℕ := 48

def sizeofKmemCache : ℕ := 160

def slabHwcacheAlign : BitVec 32 := 0x0001#32

/-- `struct slab`. `freelist` is the address of the array and `links` its contents. -/
structure Slab where
  base : ℕ
  inuse : ℕ
  freeIdx : ℕ
  freelist : ℕ
  links : ℕ → ℕ
  cache : ℕ

/-- `struct kmem_cache` -/
structure KmemCache where
  objectSize : ℕ
  alignedSize : ℕ
  align : ℕ
  flags : BitVec 32
  objectsPerSlab : ℕ
  slabSize : ℕ
  slabsFull : List ℕ
  slabsPartial : List ℕ
  slabsFree : List ℕ
  totalObjects : ℕ
  activeObjects : ℕ
  totalSlabs : ℕ
  deriving DecidableEq, Repr

/-- The static data of `kmalloc.c`, the memory that it writes to, and the page allocator. `sizes`
holds the size stored in front of a large block. -/
structure Kmem where
  pmm : Pmm
  slabs : ℕ → Option Slab
  caches : ℕ → Option KmemCache
  sizes : ℕ → ℕ
  cacheList : List ℕ
  sizeCaches : ℕ → ℕ
  earlyHeapStart : ℕ
  earlyHeapEnd : ℕ
  earlyHeapCurrent : ℕ
  slabInitialized : Bool

namespace Kmem

def setSlab (slab : ℕ) (sl : Slab) (s : Kmem) : Kmem :=
  { s with slabs := update s.slabs slab (some sl) }

def setCache (cache : ℕ) (c : KmemCache) (s : Kmem) : Kmem :=
  { s with caches := update s.caches cache (some c) }

end Kmem

def KmemCache.listDel (slab : ℕ) (c : KmemCache) : KmemCache :=
  { c with
    slabsFull := c.slabsFull.erase slab
    slabsPartial := c.slabsPartial.erase slab
    slabsFree := c.slabsFree.erase slab }

def KmemCache.addPartial (slab : ℕ) (c : KmemCache) : KmemCache :=
  { c with slabsPartial := slab :: c.slabsPartial }

def KmemCache.addFull (slab : ℕ) (c : KmemCache) : KmemCache :=
  { c with slabsFull := slab :: c.slabsFull }

def KmemCache.addFree (slab : ℕ) (c : KmemCache) : KmemCache :=
  { c with slabsFree := slab :: c.slabsFree }

/-! ## Page metadata -/

def pmmPageSetOwner (phys : ℕ) (owner : PageOwner) (s : Pmm) : Pmm :=
  s.updatePage (physToPfn phys) fun pg => { pg with owner := owner }

def pmmPageUpdateFlags (phys : ℕ) (setFlags clearFlags : BitVec 32) (s : Pmm) : Pmm :=
  s.updatePage (physToPfn phys) fun pg => { pg with flags := (pg.flags ||| setFlags) &&& ~~~clearFlags }

/-! ## The early heap -/

def earlyAlloc (size : ℕ) (s : Kmem) : ℕ × Kmem :=
  let size := alignUp size 16
  if u64 (s.earlyHeapCurrent + size) > s.earlyHeapEnd then (0, s)
  else (s.earlyHeapCurrent, { s with earlyHeapCurrent := u64 (s.earlyHeapCurrent + size) })

/-! ## Slabs -/

def calcObjectsPerSlab (objSize slabSize : ℕ) : ℕ :=
  u32 (u64Sub slabSize sizeofSlab / u64 (objSize + 4))

def initLinks (n : ℕ) : ℕ → ℕ :=
  update (forRange (fun i links => update links i (u32 (i + 1))) 0 n fun _ => 0) (n - 1) uint32Max

def markSlabPages (phys pages : ℕ) (pmm : Pmm) : Pmm :=
  forRange (fun i pmm =>
    let pagePhys := u64 (phys + i * pageSize)
    pmmPageUpdateFlags pagePhys (pageFlagSlab ||| pageFlagKernel) 0
      (pmmPageSetOwner pagePhys .slab pmm)) 0 pages pmm

def unmarkSlabPages (phys pages : ℕ) (pmm : Pmm) : Pmm :=
  forRange (fun i => pmmPageUpdateFlags (u64 (phys + i * pageSize)) 0 pageFlagSlab) 0 pages pmm

def slabCreate (cache : ℕ) (s : Kmem) : Option (ℕ × Kmem) := do
  let c ← s.caches cache
  let pages := c.slabSize / pageSize
  let (phys, pmm) := pmmAllocPages pages s.pmm
  if phys = 0 then some (0, { s with pmm := pmm })
  else
    let slab := physToVirt phys
    let base := u64 (slab + sizeofSlab)
    let s := { s with pmm := markSlabPages phys pages pmm }
    let s := s.setSlab slab {
      base := base
      inuse := 0
      freeIdx := 0
      freelist := u64 (base + c.objectsPerSlab * c.alignedSize)
      links := initLinks c.objectsPerSlab
      cache := cache }
    some (slab, s.setCache cache { c with
      totalSlabs := u64 (c.totalSlabs + 1)
      totalObjects := u64 (c.totalObjects + c.objectsPerSlab) })

def slabDestroy (cache slab : ℕ) (s : Kmem) : Option Kmem := do
  let c ← s.caches cache
  let phys := virtToPhys slab
  let pages := c.slabSize / pageSize
  let s := { s with
    pmm := pmmFreePages phys pages (unmarkSlabPages phys pages s.pmm)
    slabs := update s.slabs slab none }
  some (s.setCache cache { c with
    totalSlabs := u64Dec c.totalSlabs
    totalObjects := u64Sub c.totalObjects c.objectsPerSlab })

def slabAllocObj (slab : ℕ) (s : Kmem) : Option (ℕ × Kmem) := do
  let sl ← s.slabs slab
  if sl.freeIdx = uint32Max then some (0, s)
  else do
    let idx := sl.freeIdx
    let c ← s.caches sl.cache
    some (u64 (sl.base + idx * c.alignedSize),
      s.setSlab slab { sl with freeIdx := sl.links idx, inuse := u32 (sl.inuse + 1) })

def slabFreeObj (slab obj : ℕ) (s : Kmem) : Option Kmem := do
  let sl ← s.slabs slab
  let c ← s.caches sl.cache
  let offset := u64Sub obj sl.base
  let idx := u32 (offset / c.alignedSize)
  some (s.setSlab slab { sl with
    links := update sl.links idx sl.freeIdx
    freeIdx := idx
    inuse := u32Dec sl.inuse })

def slabContainsObj (cache slab obj : ℕ) (s : Kmem) : Option Bool :=
  if cache = 0 ∨ slab = 0 ∨ obj = 0 then some false
  else do
    let sl ← s.slabs slab
    let c ← s.caches cache
    let start := sl.base
    let stop := u64 (start + c.objectsPerSlab * c.alignedSize)
    if obj < start ∨ stop ≤ obj then some false
    else some ((obj - start) % c.alignedSize == 0)

def findSlabInList (cache obj : ℕ) (s : Kmem) : List ℕ → Option ℕ
  | [] => some 0
  | slab :: rest => do
    if ← slabContainsObj cache slab obj s then some slab else findSlabInList cache obj s rest

def findSlabInCache (cache obj : ℕ) (s : Kmem) : Option ℕ := do
  let c ← s.caches cache
  let slab ← findSlabInList cache obj s c.slabsPartial
  if slab ≠ 0 then some slab
  else do
    let slab ← findSlabInList cache obj s c.slabsFull
    if slab ≠ 0 then some slab else findSlabInList cache obj s c.slabsFree

def findOwnerLoop (obj : ℕ) (s : Kmem) : List ℕ → Option (ℕ × ℕ)
  | [] => some (0, 0)
  | cache :: rest => do
    let slab ← findSlabInCache cache obj s
    if slab ≠ 0 then some (cache, slab) else findOwnerLoop obj s rest

def findOwnerCacheForObj (obj : ℕ) (s : Kmem) : Option (ℕ × ℕ) := findOwnerLoop obj s s.cacheList

/-! ## Caches -/

/-- The slab that `kmem_cache_alloc` takes its object from: the first partial one, or the first free
one or a new one, which then become partial. The address is `0` if there is none. -/
def pickSlab (cache : ℕ) (s : Kmem) : Option (ℕ × Kmem) := do
  let c ← s.caches cache
  match c.slabsPartial with
  | slab :: _ => some (slab, s)
  | [] =>
    match c.slabsFree with
    | slab :: _ => some (slab, s.setCache cache ((c.listDel slab).addPartial slab))
    | [] => do
      let (slab, s) ← slabCreate cache s
      if slab = 0 then some (0, s)
      else do
        let c ← s.caches cache
        some (slab, s.setCache cache (c.addPartial slab))

def takeFromSlab (cache slab : ℕ) (s : Kmem) : Option (ℕ × Kmem) := do
  let (obj, s) ← slabAllocObj slab s
  let c ← s.caches cache
  let c := { c with activeObjects := u64 (c.activeObjects + 1) }
  let sl ← s.slabs slab
  if sl.inuse = c.objectsPerSlab then some (obj, s.setCache cache ((c.listDel slab).addFull slab))
  else some (obj, s.setCache cache c)

def kmemCacheAlloc (cache : ℕ) (s : Kmem) : Option (ℕ × Kmem) := do
  let (slab, s) ← pickSlab cache s
  if slab = 0 then some (0, s) else takeFromSlab cache slab s

def freeToSlab (cache slab obj : ℕ) (s : Kmem) : Option Kmem := do
  let sl ← s.slabs slab
  if sl.inuse = 0 then some s
  else do
    let c ← s.caches cache
    let wasFull := sl.inuse = c.objectsPerSlab
    let s ← slabFreeObj slab obj s
    let c := { c with
      activeObjects := if c.activeObjects > 0 then u64Dec c.activeObjects else c.activeObjects }
    let sl ← s.slabs slab
    if wasFull then some (s.setCache cache ((c.listDel slab).addPartial slab))
    else if sl.inuse = 0 then some (s.setCache cache ((c.listDel slab).addFree slab))
    else some (s.setCache cache c)

def kmemCacheFree (cache obj : ℕ) (s : Kmem) : Option Kmem :=
  if cache = 0 ∨ obj = 0 then some s
  else do
    let c ← s.caches cache
    if c.alignedSize = 0 ∨ c.objectsPerSlab = 0 then some s
    else do
      let slab ← findSlabInCache cache obj s
      if slab ≠ 0 then freeToSlab cache slab obj s
      else do
        let (target, slab) ← findOwnerCacheForObj obj s
        if target = 0 ∨ slab = 0 then some s else freeToSlab target slab obj s

def shrinkLoop (cache : ℕ) : List ℕ → Kmem → Option Kmem
  | [], s => some s
  | slab :: rest, s => do
    let c ← s.caches cache
    let s ← slabDestroy cache slab (s.setCache cache (c.listDel slab))
    shrinkLoop cache rest s

def kmemCacheShrink (cache : ℕ) (s : Kmem) : Option (ℕ × Kmem) := do
  let c ← s.caches cache
  let s ← shrinkLoop cache c.slabsFree s
  some (c.slabsFree.length, s)

/-! ## General-purpose allocation -/

def sizeClasses : List ℕ := [8, 16, 32, 64, 128, 256, 512, 1024, 2048, 4096, 8192]

def findSizeClass (size : ℕ) : Option ℕ := sizeClasses.findIdx? fun c => decide (size ≤ c)

def zigU64AddOk (a b : ℕ) : Option ℕ := if 2 ^ 64 ≤ a + b then none else some (a + b)

/-- `zig_pages_for_bytes_ok` for 4 KiB pages: the number of pages, `none` on overflow. -/
def zigPagesForBytesOk (bytes : ℕ) : Option ℕ :=
  if bytes = 0 then some 0
  else do
    let sum ← zigU64AddOk bytes (pageSize - 1)
    some (alignDown sum pageSize / pageSize)

def kmallocLarge (size : ℕ) (s : Kmem) : ℕ × Kmem :=
  match (zigU64AddOk size 8).bind zigPagesForBytesOk with
  | none => (0, s)
  | some pages =>
    let (phys, pmm) := pmmAllocPages pages s.pmm
    let s := { s with pmm := pmm }
    if phys = 0 then (0, s)
    else
      let ptr := physToVirt phys
      (u64 (ptr + 8), { s with sizes := update s.sizes ptr size })

def kmalloc (size : ℕ) (s : Kmem) : Option (ℕ × Kmem) :=
  if !s.slabInitialized then some (earlyAlloc size s)
  else if size = 0 then some (0, s)
  else
    match findSizeClass size with
    | some i => kmemCacheAlloc (s.sizeCaches i) s
    | none => some (kmallocLarge size s)

def kfreeLarge (ptr : ℕ) (s : Kmem) : Kmem :=
  let sizePtr := u64Sub ptr 8
  match zigPagesForBytesOk (u64 (s.sizes sizePtr + 8)) with
  | none => s
  | some pages => { s with pmm := pmmFreePages (virtToPhys sizePtr) pages s.pmm }

/-- `kfree`. The loop over the size classes returns in its first iteration, so that the end of the
function is reached only if there are no size classes. -/
def kfree (ptr : ℕ) (s : Kmem) : Option Kmem :=
  if ptr = 0 ∨ !s.slabInitialized then some s
  else
    match sizeClasses with
    | _ :: _ => kmemCacheFree (s.sizeCaches 0) ptr s
    | [] => some (kfreeLarge ptr s)

/-- `kmalloc_usable_size`; its loop returns in the first iteration as well. -/
def kmallocUsableSize (ptr : ℕ) (s : Kmem) : ℕ :=
  if ptr = 0 then 0
  else
    match sizeClasses with
    | size :: _ => size
    | [] => s.sizes (u64Sub ptr 8)

def memcpy (dest src n : ℕ) (mem : ℕ → BitVec 8) : ℕ → BitVec 8 :=
  fun a => if dest ≤ a ∧ a < dest + n then mem (src + (a - dest)) else mem a

def krealloc (ptr size : ℕ) (s : Kmem) (mem : ℕ → BitVec 8) :
    Option (ℕ × Kmem × (ℕ → BitVec 8)) :=
  if ptr = 0 then do
    let (p, s) ← kmalloc size s
    some (p, s, mem)
  else if size = 0 then do
    let s ← kfree ptr s
    some (0, s, mem)
  else do
    let (newPtr, s) ← kmalloc size s
    if newPtr = 0 then some (0, s, mem)
    else do
      let oldSize := kmallocUsableSize ptr s
      let mem := memcpy newPtr ptr (min oldSize size) mem
      let s ← kfree ptr s
      some (newPtr, s, mem)

/-! ## Creation of caches and initialisation -/

def cacheAlign (align : ℕ) (flags : BitVec 32) : ℕ :=
  let align := if align < 8 then 8 else align
  if flags &&& slabHwcacheAlign ≠ 0 then max align 64 else align

def cacheSlabSize (alignedSize : ℕ) : ℕ :=
  if alignedSize ≤ pageSize / 8 then pageSize
  else if alignedSize ≤ pageSize then pageSize * 2
  else alignUp (u64 (alignedSize + sizeofSlab)) pageSize

def newCache (size align : ℕ) (flags : BitVec 32) : KmemCache :=
  let align := cacheAlign align flags
  let alignedSize := alignUp size align
  let slabSize := cacheSlabSize alignedSize
  { objectSize := size
    alignedSize := alignedSize
    align := align
    flags := flags
    objectsPerSlab := calcObjectsPerSlab alignedSize slabSize
    slabSize := slabSize
    slabsFull := []
    slabsPartial := []
    slabsFree := []
    totalObjects := 0
    activeObjects := 0
    totalSlabs := 0 }

def kmemCacheCreate (size align : ℕ) (flags : BitVec 32) (s : Kmem) : Option (ℕ × Kmem) := do
  let (cache, s) ← kmalloc sizeofKmemCache s
  if cache = 0 then some (0, s)
  else
    let c := newCache size align flags
    if c.objectsPerSlab = 0 then some (0, s)
    else
      let s := s.setCache cache c
      some (cache, { s with cacheList := cache :: s.cacheList })

/-- `early_heap_init`; the check for a failed allocation comes after the conversion of the address. -/
def earlyHeapInit (s : Kmem) : Option Kmem :=
  let (phys, pmm) := pmmAllocPages 256 s.pmm
  let start := physToVirt phys
  if start = 0 then none
  else some { s with
    pmm := pmm
    earlyHeapStart := start
    earlyHeapEnd := u64 (start + 256 * pageSize)
    earlyHeapCurrent := start }

def createSizeCaches : List ℕ → ℕ → Kmem → Option Kmem
  | [], _, s => some s
  | size :: rest, i, s => do
    let (cache, s) ← kmemCacheCreate size 8 0 s
    let s := { s with sizeCaches := update s.sizeCaches i cache }
    if cache = 0 then none else createSizeCaches rest (i + 1) s

def kmemStatic (pmm : Pmm) : Kmem where
  pmm := pmm
  slabs _ := none
  caches _ := none
  sizes _ := 0
  cacheList := []
  sizeCaches _ := 0
  earlyHeapStart := 0
  earlyHeapEnd := 0
  earlyHeapCurrent := 0
  slabInitialized := false

def kmallocInit (pmm : Pmm) : Option Kmem := do
  let s ← earlyHeapInit (kmemStatic pmm)
  let s ← createSizeCaches sizeClasses 0 s
  some { s with slabInitialized := true }

end Obelisk
