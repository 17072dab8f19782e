import Obelisk.Lib.Word
import Obelisk.Lib.Loop

/-!
# The physical page allocator

The bitmap allocator of `kernel/mm/pmm.c`: three zones over one bitmap, a free counter for each
zone and a global one, and the `struct page` array that shadows the bitmap once it is allocated.

A frame number is a natural number, a physical address one below `2 ^ 64`. The bitmap is the array
of 32-bit words of the source (bit set: frame used). Locks, zone names and `printk` are left out.
-/

namespace Obelisk

open KLib Function

def pageSize : ℕ := 4096

def pfnToPhys (pfn : ℕ) : ℕ := u64 (pfn <<< 12)

def physToPfn (phys : ℕ) : ℕ := phys >>> 12

/-! ## State -/

inductive ZoneType
  | dma
  | normal
  | high
  deriving DecidableEq, Repr

def ZoneType.all : List ZoneType := [.dma, .normal, .high]

/-- `struct pmm_zone` -/
structure PmmZone where
  startPfn : ℕ
  endPfn : ℕ
  totalPages : ℕ
  freePages : ℕ
  deriving DecidableEq, Repr

/-- `enum page_owner`, the members that `pmm.c` and its callers store. -/
inductive PageOwner
  | free
  | kernel
  | user
  | slab
  | pagetable
  | dma
  deriving DecidableEq, Repr

/-- `struct page`, less its list link and private pointer. -/
structure Page where
  flags : BitVec 32
  refcount : ℕ
  zone : ZoneType
  owner : PageOwner
  deriving DecidableEq, Repr

def pageFlagReserved : BitVec 32 := 1#32 <<< 0
def pageFlagKernel : BitVec 32 := 1#32 <<< 1
def pageFlagUser : BitVec 32 := 1#32 <<< 2
def pageFlagDma : BitVec 32 := 1#32 <<< 3
def pageFlagSlab : BitVec 32 := 1#32 <<< 7

/-- The static data of `pmm.c`. `pageArray` is `none` while `page_array` is `NULL`. -/
structure Pmm where
  zones : ZoneType → PmmZone
  bitmap : ℕ → BitVec 32
  totalPages : ℕ
  freePages : ℕ
  usablePages : ℕ
  pageArray : Option (ℕ → Page)
  pageArrayCount : ℕ

def pmmStatic : Pmm where
  zones
    | .dma => ⟨0, 0x1000, 0, 0⟩
    | .normal => ⟨0x1000, 0x100000, 0, 0⟩
    | .high => ⟨0x100000, 0, 0, 0⟩
  bitmap _ := 0
  totalPages := 0
  freePages := 0
  usablePages := 0
  pageArray := none
  pageArrayCount := 0

/-! ## Bitmap operations -/

def bitmapSet (bitmap : ℕ → BitVec 32) (bit : ℕ) : ℕ → BitVec 32 :=
  update bitmap (bit / 32) (bitmap (bit / 32) ||| (1#32 <<< (bit % 32)))

def bitmapClear (bitmap : ℕ → BitVec 32) (bit : ℕ) : ℕ → BitVec 32 :=
  update bitmap (bit / 32) (bitmap (bit / 32) &&& ~~~(1#32 <<< (bit % 32)))

def bitmapTest (bitmap : ℕ → BitVec 32) (bit : ℕ) : Bool :=
  (bitmap (bit / 32) &&& (1#32 <<< (bit % 32))) != 0#32

def bitmapFindFreeLoop (bitmap : ℕ → BitVec 32) : ℕ → ℕ → Option ℕ
  | _, 0 => none
  | i, n + 1 => if !bitmapTest bitmap i then some i else bitmapFindFreeLoop bitmap (i + 1) n

def bitmapFindFree (bitmap : ℕ → BitVec 32) (start stop : ℕ) : Option ℕ :=
  bitmapFindFreeLoop bitmap start (stop - start)

def bitmapFindFreeRegionLoop (bitmap : ℕ → BitVec 32) (count : ℕ) : ℕ → ℕ → ℕ → ℕ → Option ℕ
  | _, 0, _, _ => none
  | i, n + 1, foundStart, foundCount =>
    if !bitmapTest bitmap i then
      let foundStart := if foundCount = 0 then i else foundStart
      let foundCount := u64 (foundCount + 1)
      if foundCount = count then some foundStart
      else bitmapFindFreeRegionLoop bitmap count (i + 1) n foundStart foundCount
    else bitmapFindFreeRegionLoop bitmap count (i + 1) n foundStart 0

def bitmapFindFreeRegion (bitmap : ℕ → BitVec 32) (start stop count : ℕ) : Option ℕ :=
  bitmapFindFreeRegionLoop bitmap count start (stop - start) 0 0

namespace Pmm

/-! ## Zones and page metadata -/

def pfnToZone (s : Pmm) (pfn : ℕ) : Option ZoneType :=
  ZoneType.all.find? fun z => decide ((s.zones z).startPfn ≤ pfn) && decide (pfn < (s.zones z).endPfn)

def setZone (s : Pmm) (z : ZoneType) (f : PmmZone → PmmZone) : Pmm :=
  { s with zones := update s.zones z (f (s.zones z)) }

def updatePage (s : Pmm) (pfn : ℕ) (f : Page → Page) : Pmm :=
  match s.pageArray with
  | none => s
  | some pages =>
    if s.pageArrayCount ≤ pfn then s
    else { s with pageArray := some (update pages pfn (f (pages pfn))) }

end Pmm

def Page.markDma (isDma : Bool) (pg : Page) : Page :=
  if isDma then { pg with flags := pg.flags ||| pageFlagDma }
  else { pg with flags := pg.flags &&& ~~~pageFlagDma }

def Page.release (z : ZoneType) (pg : Page) : Page :=
  Page.markDma (z == .dma) { pg with
    refcount := 0
    flags := pg.flags &&& ~~~(pageFlagReserved ||| pageFlagKernel ||| pageFlagUser ||| pageFlagSlab)
    owner := .free }

def Page.claim (z : ZoneType) (owner : PageOwner) (pg : Page) : Page :=
  Page.markDma (z == .dma) { pg with
    refcount := 1
    flags := pg.flags ||| (pageFlagReserved ||| pageFlagKernel)
    owner := owner }

/-! ## Initialisation and region marking -/

def maxBitmapPages : ℕ := 1024 * 1024

def pmmInitBitmap (numPages : ℕ) (s : Pmm) : Pmm :=
  let total := if numPages > maxBitmapPages then maxBitmapPages else numPages
  let zones := s.zones
  let zones :=
    if total > 0x100000 then
      update zones .high { zones .high with endPfn := total }
    else if total > 0x1000 then
      let zones := update zones .normal { zones .normal with endPfn := total }
      update zones .high { zones .high with endPfn := (zones .high).startPfn }
    else
      let zones := update zones .dma { zones .dma with endPfn := total }
      let zones := update zones .normal { zones .normal with endPfn := (zones .normal).startPfn }
      update zones .high { zones .high with endPfn := (zones .high).startPfn }
  { s with
    totalPages := total
    zones := fun z => { zones z with
      totalPages := u64Sub (zones z).endPfn (zones z).startPfn
      freePages := 0 }
    -- memset(initial_bitmap, 0xFF, sizeof(initial_bitmap))
    bitmap := fun _ => BitVec.allOnes 32
    freePages := 0
    usablePages := 0 }

def markFrameFree (pfn : ℕ) (s : Pmm) : Pmm :=
  match s.pfnToZone pfn with
  | none => s
  | some z =>
    if bitmapTest s.bitmap pfn then
      let s := { s with bitmap := bitmapClear s.bitmap pfn }
      let s := s.setZone z fun zone => { zone with freePages := u64 (zone.freePages + 1) }
      let s := { s with
        freePages := u64 (s.freePages + 1)
        usablePages := u64 (s.usablePages + 1) }
      s.updatePage pfn (Page.release z)
    else s

def pmmMarkRegionFree (base size : ℕ) (s : Pmm) : Pmm :=
  let startPfn := physToPfn (alignUp base pageSize)
  let endPfn := physToPfn (alignDown (u64 (base + size)) pageSize)
  if endPfn ≤ startPfn then s else forRange markFrameFree startPfn (endPfn - startPfn) s

/-- One iteration of `pmm_mark_region_used`. The counters are guarded against underflow. -/
def markFrameUsed (pfn : ℕ) (s : Pmm) : Pmm :=
  match s.pfnToZone pfn with
  | none => s
  | some z =>
    if !bitmapTest s.bitmap pfn then
      let s := { s with bitmap := bitmapSet s.bitmap pfn }
      let s := s.setZone z fun zone =>
        { zone with freePages := if zone.freePages > 0 then u64Dec zone.freePages else zone.freePages }
      let s := { s with freePages := if s.freePages > 0 then u64Dec s.freePages else s.freePages }
      s.updatePage pfn (Page.claim z .kernel)
    else s

def pmmMarkRegionUsed (base size : ℕ) (s : Pmm) : Pmm :=
  let startPfn := physToPfn (alignDown base pageSize)
  let endPfn := physToPfn (alignUp (u64 (base + size)) pageSize)
  forRange markFrameUsed startPfn (endPfn - startPfn) s

/-! ## Allocation -/

def allocOwner (z : ZoneType) : PageOwner := if z = .dma then .dma else .kernel

def pmmAllocPageZone (z : ZoneType) (s : Pmm) : ℕ × Pmm :=
  if (s.zones z).freePages = 0 then (0, s)
  else
    match bitmapFindFree s.bitmap (s.zones z).startPfn (s.zones z).endPfn with
    | none => (0, s)
    | some pfn =>
      let s := { s with bitmap := bitmapSet s.bitmap pfn }
      let s := s.setZone z fun zone => { zone with freePages := u64Dec zone.freePages }
      let s := { s with freePages := u64Dec s.freePages }
      (pfnToPhys pfn, s.updatePage pfn (Page.claim z (allocOwner z)))

def tryZones (f : ZoneType → Pmm → ℕ × Pmm) (s : Pmm) : ℕ × Pmm :=
  let (page, s) := f .normal s
  if page ≠ 0 then (page, s)
  else
    let (page, s) := f .high s
    if page ≠ 0 then (page, s) else f .dma s

def pmmAllocPage (s : Pmm) : ℕ × Pmm := tryZones pmmAllocPageZone s

def claimFrame (z : ZoneType) (pfn : ℕ) (s : Pmm) : Pmm :=
  { s with bitmap := bitmapSet s.bitmap pfn }.updatePage pfn (Page.claim z (allocOwner z))

def pmmAllocPagesZone (count : ℕ) (z : ZoneType) (s : Pmm) : ℕ × Pmm :=
  if (s.zones z).freePages < count then (0, s)
  else
    match bitmapFindFreeRegion s.bitmap (s.zones z).startPfn (s.zones z).endPfn count with
    | none => (0, s)
    | some startPfn =>
      let s := forRange (claimFrame z) startPfn count s
      let s := s.setZone z fun zone => { zone with freePages := u64Sub zone.freePages count }
      (pfnToPhys startPfn, { s with freePages := u64Sub s.freePages count })

def pmmAllocPages (count : ℕ) (s : Pmm) : ℕ × Pmm := tryZones (pmmAllocPagesZone count) s

/-! ## Release -/

def pmmFreePage (phys : ℕ) (s : Pmm) : Pmm :=
  let pfn := physToPfn phys
  match s.pfnToZone pfn with
  | none => s
  | some z =>
    if !bitmapTest s.bitmap pfn then s
    else
      let s := { s with bitmap := bitmapClear s.bitmap pfn }
      let s := s.setZone z fun zone => { zone with freePages := u64 (zone.freePages + 1) }
      let s := { s with freePages := u64 (s.freePages + 1) }
      s.updatePage pfn (Page.release z)

def pmmFreePages (phys count : ℕ) (s : Pmm) : Pmm :=
  forRange (fun i => pmmFreePage (u64 (phys + i * pageSize))) 0 count s

end Obelisk
