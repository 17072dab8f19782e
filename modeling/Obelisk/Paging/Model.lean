import Obelisk.Lib.FramePool
import Obelisk.Pmm.Model

/-!
# Four-level page tables

The page-table code of `kernel/arch/x86_64/mm/paging.c` on a physical memory of frames of 512
64-bit words. The kernel reaches a frame through the direct map (`PHYS_TO_VIRT`), so a table
pointer is the frame number of the table and a pointer to an entry is a frame number with an index.
TLB maintenance is left out.
-/

namespace Obelisk

open KLib Function

/-! ## Entries -/

def ptePresent : BitVec 64 := 1#64 <<< 0
def pteWritable : BitVec 64 := 1#64 <<< 1
def pteUser : BitVec 64 := 1#64 <<< 2
def pteHuge : BitVec 64 := 1#64 <<< 7
def pteCow : BitVec 64 := 1#64 <<< 9

def pageFrameMask : BitVec 64 := 0x000FFFFFFFFFF000#64

def pteGetFrame (pte : BitVec 64) : ℕ := (pte &&& pageFrameMask).toNat

def pteMake (frame : ℕ) (flags : BitVec 64) : BitVec 64 :=
  (BitVec.ofNat 64 frame &&& pageFrameMask) ||| flags

def pteIsPresent (pte : BitVec 64) : Bool := (pte &&& ptePresent) != 0#64

def pteIsHuge (pte : BitVec 64) : Bool := (pte &&& pteHuge) != 0#64

def pteTable (pte : BitVec 64) : ℕ := physToPfn (pteGetFrame pte)

/-! ## Physical memory -/

abbrev PhysMem := ℕ → ℕ → BitVec 64

abbrev Loc := ℕ × ℕ

/-- The frame allocator and physical memory. -/
structure Machine (P : Type) where
  pool : P
  mem : PhysMem

namespace PhysMem

def read (mem : PhysMem) (e : Loc) : BitVec 64 := mem e.1 e.2

def write (mem : PhysMem) (e : Loc) (w : BitVec 64) : PhysMem :=
  update mem e.1 (update (mem e.1) e.2 w)

def zeroFrame (mem : PhysMem) (pfn : ℕ) : PhysMem := update mem pfn fun _ => 0#64

end PhysMem

/-! ## The walk -/

/-- `PML4_INDEX`, `PDPT_INDEX`, `PD_INDEX`, `PT_INDEX` for the shifts 39, 30, 21 and 12. -/
def tableIndex (shift virt : ℕ) : ℕ := (virt >>> shift) &&& 0x1FF

def pml4Index : ℕ → ℕ := tableIndex 39
def pdptIndex : ℕ → ℕ := tableIndex 30
def pdIndex : ℕ → ℕ := tableIndex 21
def ptIndex : ℕ → ℕ := tableIndex 12

def kernelVirtBase : ℕ := 0xFFFFFFFF80000000
def userSpaceEnd : ℕ := 0x0000800000000000

variable {P : Type} [FramePool P]

def pagingGetOrCreate (entry : Loc) (flags : BitVec 64) (m : Machine P) : Option ℕ × Machine P :=
  if pteIsPresent (m.mem.read entry) then (some (pteTable (m.mem.read entry)), m)
  else
    let (newTable, pool) := FramePool.allocPage m.pool
    if newTable = 0 then (none, { m with pool := pool })
    else
      let mem := m.mem.zeroFrame (physToPfn newTable)
      (some (physToPfn newTable),
        { pool := pool, mem := mem.write entry (pteMake newTable (flags ||| ptePresent)) })

def pagingDescend (create : Bool) (flags : BitVec 64) (entry : Loc) (m : Machine P) :
    Option ℕ × Machine P :=
  if !pteIsPresent (m.mem.read entry) then
    if !create then (none, m) else pagingGetOrCreate entry flags m
  else (some (pteTable (m.mem.read entry)), m)

def walkFlags (virt : ℕ) : BitVec 64 :=
  if virt < kernelVirtBase then ptePresent ||| pteWritable ||| pteUser
  else ptePresent ||| pteWritable

/-- `paging_walk`: the address of the entry that maps `virt`, `none` for `NULL`. A huge entry of
the two middle levels ends the walk. -/
def pagingWalk (pml4 virt : ℕ) (create : Bool) (m : Machine P) : Option Loc × Machine P :=
  let flags := walkFlags virt
  match pagingDescend create flags (pml4, pml4Index virt) m with
  | (none, m) => (none, m)
  | (some pdpt, m) =>
    if pteIsHuge (m.mem.read (pdpt, pdptIndex virt)) then (some (pdpt, pdptIndex virt), m)
    else
      match pagingDescend create flags (pdpt, pdptIndex virt) m with
      | (none, m) => (none, m)
      | (some pd, m) =>
        if pteIsHuge (m.mem.read (pd, pdIndex virt)) then (some (pd, pdIndex virt), m)
        else
          match pagingDescend create flags (pd, pdIndex virt) m with
          | (none, m) => (none, m)
          | (some pageTable, m) => (some (pageTable, ptIndex virt), m)

/-! ## The page-table interface -/

def eNOENT : ℤ := 2
def eNOMEM : ℤ := 12
def eEXIST : ℤ := 17

def mmuMap (pml4 virt phys : ℕ) (flags : BitVec 64) (m : Machine P) : ℤ × Machine P :=
  let virt := alignDown virt pageSize
  let phys := alignDown phys pageSize
  match pagingWalk pml4 virt true m with
  | (none, m) => (-eNOMEM, m)
  | (some pte, m) =>
    if pteIsPresent (m.mem.read pte) then (-eEXIST, m)
    else (0, { m with mem := m.mem.write pte (pteMake phys (flags ||| ptePresent)) })

def mmuUnmap (pml4 virt : ℕ) (m : Machine P) : ℤ × Machine P :=
  let virt := alignDown virt pageSize
  match pagingWalk pml4 virt false m with
  | (none, m) => (-eNOENT, m)
  | (some pte, m) =>
    if !pteIsPresent (m.mem.read pte) then (-eNOENT, m)
    else (0, { m with mem := m.mem.write pte 0#64 })

def mmuResolve (pml4 virt : ℕ) (m : Machine P) : ℕ :=
  match pagingWalk pml4 virt false m with
  | (none, _) => 0
  | (some pte, m) =>
    if !pteIsPresent (m.mem.read pte) then 0
    else pteGetFrame (m.mem.read pte) ||| (virt &&& 0xFFF)

def mmuGetFlags (pml4 virt : ℕ) (m : Machine P) : BitVec 64 :=
  match pagingWalk pml4 virt false m with
  | (none, _) => 0#64
  | (some pte, m) => m.mem.read pte &&& ~~~pageFrameMask

def mmuSetFlags (pml4 virt : ℕ) (flags : BitVec 64) (m : Machine P) : ℤ × Machine P :=
  match pagingWalk pml4 virt false m with
  | (none, m) => (-eNOENT, m)
  | (some pte, m) =>
    if !pteIsPresent (m.mem.read pte) then (-eNOENT, m)
    else
      let phys := pteGetFrame (m.mem.read pte)
      (0, { m with mem := m.mem.write pte (pteMake phys (flags ||| ptePresent)) })

/-- `mmu_create_page_table` after the `kmalloc` of the descriptor: a zeroed PML4 whose upper half
is copied from the kernel's. The result is the physical address, `0` on failure. -/
def mmuCreatePageTable (kernelPml4 : ℕ) (m : Machine P) : ℕ × Machine P :=
  let (pml4Phys, pool) := FramePool.allocPage m.pool
  if pml4Phys = 0 then (0, { m with pool := pool })
  else
    let pml4 := physToPfn pml4Phys
    let mem := m.mem.zeroFrame pml4
    (pml4Phys, { pool := pool
                 mem := update mem pml4 fun i =>
                   if 256 ≤ i ∧ i < 512 then mem kernelPml4 i else mem pml4 i })

end Obelisk
