import Obelisk.Lib.DList
import Obelisk.Paging.Model

/-!
# Address spaces

The virtual memory manager of `kernel/mm/vmm.c`: the doubly linked list of areas of an address
space, `mmap`, `munmap`, `mprotect`, `brk`, page faults, and creating, cloning and destroying an
address space.

The areas live in a heap of cells (`Heap Area`). Whether an allocation of the kernel heap succeeds
and at which address is read from `Mm.kallocs`, and what `vfs_read` returns from `Mm.reads`; both
lists are arbitrary. A function returns `none` where the source would follow a dangling pointer or
where a loop over the list does not end within the number of areas.

Locks, reference counts and the unused area tree are left out.
-/

namespace Obelisk

open KLib Function FramePool

/-! ## Constants -/

def protRead : BitVec 32 := 0x1
def protWrite : BitVec 32 := 0x2
def protExec : BitVec 32 := 0x4

def mapShared : BitVec 32 := 0x01
def mapPrivate : BitVec 32 := 0x02
def mapFixed : BitVec 32 := 0x10
def mapAnonymous : BitVec 32 := 0x20

def vmaRead : BitVec 32 := 1 <<< 0
def vmaWrite : BitVec 32 := 1 <<< 1
def vmaExec : BitVec 32 := 1 <<< 2
def vmaShared : BitVec 32 := 1 <<< 3
def vmaPrivate : BitVec 32 := 1 <<< 4
def vmaAnonymous : BitVec 32 := 1 <<< 7

def userHeapBase : ℕ := 0x10000000

/-- `MAP_FAILED` and the failure value of `vmm_brk`: the pointer `-1`. -/
def mapFailed : ℕ := 2 ^ 64 - 1

def eBADF : ℤ := 9
def eACCES : ℤ := 13
def eFAULT : ℤ := 14
def eINVAL : ℤ := 22

def hasFlag {w : ℕ} (x mask : BitVec w) : Bool := (x &&& mask) != 0

/-! ## State -/

/-- The data of a `struct vm_area`; `stop` is its `end`, `file = 0` no backing file. -/
structure Area where
  start : ℕ
  stop : ℕ
  flags : BitVec 32
  prot : BitVec 32
  file : ℕ
  offset : BitVec 64
  deriving DecidableEq, Repr

/-- `struct address_space`; `pt` is the frame of the PML4. -/
structure AddressSpace where
  pt : ℕ
  vmaList : ℕ
  vmaCount : ℕ
  totalVm : ℕ
  brkStart : ℕ
  brkEnd : ℕ
  startCode : ℕ
  endCode : ℕ
  startData : ℕ
  endData : ℕ
  startStack : ℕ
  deriving DecidableEq, Repr

/-- Physical memory, the live areas, and the answers of the kernel heap and of `vfs_read`. -/
structure Mm (P : Type) where
  machine : Machine P
  vmas : Heap Area
  kallocs : List ℕ
  reads : List (ℤ × (ℕ → BitVec 64))

/-- An address space and the memory manager. -/
structure Space (P : Type) where
  as : AddressSpace
  mm : Mm P

variable {P : Type} [FramePool P]

def Space.setMachine (s : Space P) (m : Machine P) : Space P := { s with mm := { s.mm with machine := m } }

def Space.setVmas (s : Space P) (vmas : Heap Area) : Space P := { s with mm := { s.mm with vmas := vmas } }

/-! ## Areas -/

/-- `kmalloc`, `kzalloc`, `kmem_cache_alloc`: the next answer of the kernel heap. -/
def kzalloc (mm : Mm P) : ℕ × Mm P :=
  match mm.kallocs with
  | [] => (0, mm)
  | p :: rest => (p, { mm with kallocs := rest })

/-- `vmm_create_vma`. The heap only hands out addresses at which no area lives. -/
def vmmCreateVma (start stop : ℕ) (flags : BitVec 32) (mm : Mm P) : ℕ × Mm P :=
  let (vma, mm) := kzalloc mm
  if vma = 0 ∨ 2 ^ 64 ≤ vma ∨ (mm.vmas vma).isSome then (0, mm)
  else (vma, { mm with vmas := update mm.vmas vma (some ⟨⟨start, stop, flags, 0, 0, 0⟩, 0, 0⟩) })

def vmmFreeVma (vma : ℕ) (mm : Mm P) : Mm P :=
  if vma = 0 then mm else { mm with vmas := update mm.vmas vma none }

def vmmFindVmaLoop (vmas : Heap Area) (addr : ℕ) : ℕ → ℕ → Option ℕ
  | 0, _ => none
  | n + 1, vma =>
    if vma = 0 then some 0
    else do
      let c ← vmas vma
      if c.val.start ≤ addr ∧ addr < c.val.stop then some vma
      else if addr < c.val.start then some 0
      else vmmFindVmaLoop vmas addr n c.next

def vmmFindVma (addr : ℕ) (s : Space P) : Option ℕ :=
  vmmFindVmaLoop s.mm.vmas addr (s.as.vmaCount + 1) s.as.vmaList

def vmmFindVmaIntersectionLoop (vmas : Heap Area) (start stop : ℕ) : ℕ → ℕ → Option ℕ
  | 0, _ => none
  | n + 1, vma =>
    if vma = 0 then some 0
    else do
      let c ← vmas vma
      if c.val.start < stop ∧ start < c.val.stop then some vma
      else if stop ≤ c.val.start then some 0
      else vmmFindVmaIntersectionLoop vmas start stop n c.next

def vmmFindVmaIntersection (start stop : ℕ) (s : Space P) : Option ℕ :=
  vmmFindVmaIntersectionLoop s.mm.vmas start stop (s.as.vmaCount + 1) s.as.vmaList

def vmmInsertLoop (vmas : Heap Area) (start : ℕ) : ℕ → ℕ → ℕ → Option (ℕ × ℕ)
  | 0, _, _ => none
  | n + 1, prev, curr =>
    if curr = 0 then some (prev, 0)
    else do
      let c ← vmas curr
      if c.val.start < start then vmmInsertLoop vmas start n curr c.next
      else some (prev, curr)

def modifyIf (p : ℕ) (f : Cell Area → Cell Area) (vmas : Heap Area) : Option (Heap Area) :=
  if p = 0 then some vmas else vmas.modify p f

def vmmInsertVma (vma : ℕ) (s : Space P) : Option (ℤ × Space P) := do
  let v ← s.mm.vmas vma
  let (prev, curr) ← vmmInsertLoop s.mm.vmas v.val.start (s.as.vmaCount + 1) 0 s.as.vmaList
  if curr ≠ 0 ∧ (s.mm.vmas curr).any (fun c => c.val.start < v.val.stop) then some (-eEXIST, s)
  else if prev ≠ 0 ∧ (s.mm.vmas prev).any (fun c => v.val.start < c.val.stop) then some (-eEXIST, s)
  else do
    let vmas ← s.mm.vmas.modify vma fun c => { c with prev := prev, next := curr }
    let vmas ← modifyIf prev (fun c => { c with next := vma }) vmas
    let vmas ← modifyIf curr (fun c => { c with prev := vma }) vmas
    some (0, { s.setVmas vmas with
      as := { s.as with
        vmaList := if prev = 0 then vma else s.as.vmaList
        vmaCount := u64 (s.as.vmaCount + 1)
        totalVm := u64 (s.as.totalVm + u64Sub v.val.stop v.val.start) } })

def vmmRemoveVma (vma : ℕ) (s : Space P) : Option (Space P) := do
  let v ← s.mm.vmas vma
  let vmas ← modifyIf v.prev (fun c => { c with next := v.next }) s.mm.vmas
  let vmas ← modifyIf v.next (fun c => { c with prev := v.prev }) vmas
  some { s.setVmas vmas with
    as := { s.as with
      vmaList := if v.prev = 0 then v.next else s.as.vmaList
      vmaCount := u64Dec s.as.vmaCount
      totalVm := u64Sub s.as.totalVm (u64Sub v.val.stop v.val.start) } }

/-! ## Unmapping -/

/-- `zig_range_end_le_cap_ok`: the end of a range, unless it wraps or exceeds `cap`. -/
def rangeEnd (start length cap : ℕ) : Option ℕ :=
  if 2 ^ 64 ≤ start + length then none
  else if cap < start + length then none
  else some (start + length)

/-- The number of steps of `for (addr = start; addr < end; addr += PAGE_SIZE)`. -/
def pageCount (start stop : ℕ) : ℕ := (stop - start + (pageSize - 1)) / pageSize

def unmapPage (root addr : ℕ) (m : Machine P) : Machine P :=
  let phys := mmuResolve root addr m
  if phys ≠ 0 then
    let m := (mmuUnmap root addr m).2
    { m with pool := freePage phys m.pool }
  else m

def unmapRange (root start stop : ℕ) (m : Machine P) : Machine P :=
  forRange (fun i => unmapPage root (start + i * pageSize)) 0 (pageCount start stop) m

def vmmMunmapArea (start stop vma : ℕ) (s : Space P) : Option (Space P) := do
  let v ← s.mm.vmas vma
  let a := v.val
  let s := s.setMachine (unmapRange s.as.pt (max a.start start) (min a.stop stop) s.mm.machine)
  if start ≤ a.start ∧ a.stop ≤ stop then do
    let s ← vmmRemoveVma vma s
    some { s with mm := vmmFreeVma vma s.mm }
  else if a.start < start ∧ stop < a.stop then
    let (newVma, mm) := vmmCreateVma stop a.stop a.flags s.mm
    let s := { s with mm := mm }
    if newVma = 0 then some s
    else do
      let vmas ← s.mm.vmas.modify newVma fun c => { c with val := { c.val with
        prot := a.prot, file := a.file
        offset := a.offset + BitVec.ofNat 64 (u64Sub stop a.start) } }
      let vmas ← vmas.modify vma fun c => { c with val := { c.val with stop := start } }
      let (_, s) ← vmmInsertVma newVma (s.setVmas vmas)
      some s
  else if a.start < start then do
    let vmas ← s.mm.vmas.modify vma fun c => { c with val := { c.val with stop := start } }
    some (s.setVmas vmas)
  else do
    let vmas ← s.mm.vmas.modify vma fun c => { c with val := { c.val with
      offset := a.offset + BitVec.ofNat 64 (u64Sub stop a.start), start := stop } }
    some (s.setVmas vmas)

def vmmMunmapLoop (start stop : ℕ) : ℕ → ℕ → Space P → Option (Space P)
  | 0, _, _ => none
  | n + 1, vma, s =>
    if vma = 0 then some s
    else do
      let v ← s.mm.vmas vma
      if stop ≤ v.val.start then some s
      else if start < v.val.stop then do
        let s ← vmmMunmapArea start stop vma s
        vmmMunmapLoop start stop n v.next s
      else vmmMunmapLoop start stop n v.next s

def vmmMunmap (addr length : ℕ) (s : Space P) : Option (ℤ × Space P) :=
  match rangeEnd addr length (2 ^ 64 - 1) with
  | none => some (-eINVAL, s)
  | some spanEnd => do
    let s ← vmmMunmapLoop (alignDown addr pageSize) (alignUp spanEnd pageSize)
      (s.as.vmaCount + 1) s.as.vmaList s
    some (0, s)

/-! ## Mapping -/

def vmmProtToPteFlags (prot : BitVec 32) : BitVec 64 :=
  if hasFlag prot protWrite then ptePresent ||| pteUser ||| pteWritable else ptePresent ||| pteUser

/-- The search of `vmm_mmap` for a gap; the inner `none` is `MAP_FAILED`. -/
def vmmGapLoop (length : ℕ) (s : Space P) : ℕ → ℕ → Option (Option ℕ)
  | 0, _ => none
  | n + 1, start =>
    match rangeEnd start length userSpaceEnd with
    | none => some none
    | some stop => do
      let vma ← vmmFindVmaIntersection start stop s
      if vma = 0 then some (some start)
      else do
        let c ← s.mm.vmas vma
        vmmGapLoop length s n (alignUp c.val.stop pageSize)

def vmmMmapStart (addr length : ℕ) (flags : BitVec 32) (s : Space P) : Option (Option ℕ) :=
  if hasFlag flags mapFixed then
    some (if addr &&& (pageSize - 1) ≠ 0 then none else some (alignDown addr pageSize))
  else vmmGapLoop length s (s.as.vmaCount + 1) userHeapBase

def vmmMmapFlags (prot flags : BitVec 32) : BitVec 32 :=
  (if hasFlag prot protRead then vmaRead else 0) |||
  (if hasFlag prot protWrite then vmaWrite else 0) |||
  (if hasFlag prot protExec then vmaExec else 0) |||
  (if hasFlag flags mapShared then vmaShared else 0) |||
  (if hasFlag flags mapPrivate then vmaPrivate else 0) |||
  (if hasFlag flags mapAnonymous then vmaAnonymous else 0)

/-- `vfs_read` into a frame: the next answer, with arbitrary contents. -/
def vfsReadFrame (pfn : ℕ) (mm : Mm P) : ℤ × Mm P :=
  match mm.reads with
  | [] => (0, mm)
  | (ret, data) :: rest =>
    (ret, { mm with reads := rest,
                    machine := { mm.machine with mem := update mm.machine.mem pfn data } })

def vmmPopulate (root : ℕ) (pteFlags : BitVec 64) : ℕ → ℕ → Mm P → Bool × Mm P
  | 0, _, mm => (true, mm)
  | n + 1, vaddr, mm =>
    let (phys, pool) := allocPage mm.machine.pool
    if phys = 0 then (false, { mm with machine := { mm.machine with pool := pool } })
    else
      let (r, m) := mmuMap root vaddr phys pteFlags
        { pool := pool, mem := mm.machine.mem.zeroFrame (physToPfn phys) }
      if r ≠ 0 then
        (false, { mm with machine := { m with pool := freePage phys m.pool } })
      else
        let (ret, mm) := vfsReadFrame (physToPfn phys) { mm with machine := m }
        if ret < 0 then (false, mm) else vmmPopulate root pteFlags n (vaddr + pageSize) mm

def vmmMmapInsert (vma start stop length : ℕ) (prot flags : BitVec 32) (file : ℕ) (s : Space P) :
    Option (ℕ × Space P) := do
  let (r, s) ← vmmInsertVma vma s
  if r ≠ 0 then some (mapFailed, { s with mm := vmmFreeVma vma s.mm })
  else if !hasFlag flags mapAnonymous ∧ file ≠ 0 then
    let (ok, mm) := vmmPopulate s.as.pt (vmmProtToPteFlags prot) (pageCount start stop) start s.mm
    if ok then some (start, { s with mm := mm })
    else do
      let (_, s) ← vmmMunmap start length { s with mm := mm }
      some (mapFailed, s)
  else some (start, s)

/-- `vmm_mmap` once the range `[start, stop)` is free. -/
def vmmMmapArea (start stop length : ℕ) (prot flags : BitVec 32) (file : ℕ) (offset : BitVec 64)
    (s : Space P) : Option (ℕ × Space P) :=
  let (vma, mm) := vmmCreateVma start stop (vmmMmapFlags prot flags) s.mm
  let s := { s with mm := mm }
  if vma = 0 then some (mapFailed, s)
  else do
    let vmas ← s.mm.vmas.modify vma fun c => { c with val := { c.val with
      prot := prot, file := file, offset := offset } }
    vmmMmapInsert vma start stop length prot flags file (s.setVmas vmas)

def vmmMmap (addr length : ℕ) (prot flags : BitVec 32) (file : ℕ) (offset : BitVec 64)
    (s : Space P) : Option (ℕ × Space P) :=
  if length = 0 then some (mapFailed, s)
  else if !hasFlag flags mapAnonymous ∧
      (file = 0 ∨ offset.msb ∨ hasFlag offset (BitVec.ofNat 64 (pageSize - 1))) then
    some (mapFailed, s)
  else do
    let length := alignUp length pageSize
    match ← vmmMmapStart addr length flags s with
    | none => some (mapFailed, s)
    | some start =>
      match rangeEnd start length userSpaceEnd with
      | none => some (mapFailed, s)
      | some stop =>
        if hasFlag flags mapFixed then do
          let (r, s) ← vmmMunmap start length s
          if r ≠ 0 then some (mapFailed, s)
          else vmmMmapArea start stop length prot flags file offset s
        else do
          let vma ← vmmFindVmaIntersection start stop s
          if vma ≠ 0 then some (mapFailed, s)
          else vmmMmapArea start stop length prot flags file offset s

/-! ## Protection, heap and page faults -/

def mprotectPage (root : ℕ) (flags : BitVec 64) (a : ℕ) (m : Machine P) : Machine P :=
  if mmuResolve root a m ≠ 0 then (mmuSetFlags root a flags m).2 else m

def vmmMprotect (addr length : ℕ) (prot : BitVec 32) (s : Space P) : ℤ × Space P :=
  let start := alignDown addr pageSize
  let stop := alignUp (u64 (addr + length)) pageSize
  let flags := vmmProtToPteFlags prot
  (0, s.setMachine (forRange (fun i => mprotectPage s.as.pt flags (start + i * pageSize)) 0
    (pageCount start stop) s.mm.machine))

def growHeap (root : ℕ) : ℕ → ℕ → Machine P → Bool × Machine P
  | 0, _, m => (true, m)
  | n + 1, addr, m =>
    if mmuResolve root addr m ≠ 0 then (false, m)
    else
      let (phys, pool) := allocPage m.pool
      if phys = 0 then (false, { m with pool := pool })
      else
        let (r, m) := mmuMap root addr phys (ptePresent ||| pteWritable ||| pteUser)
          { m with pool := pool }
        if r ≠ 0 then (false, { m with pool := freePage phys m.pool })
        else growHeap root n (addr + pageSize) { m with mem := m.mem.zeroFrame (physToPfn phys) }

def vmmBrk (addr : ℕ) (s : Space P) : ℕ × Space P :=
  if addr = 0 then (s.as.brkEnd, s)
  else
    let newBrk := alignUp addr pageSize
    if newBrk < s.as.brkStart then (mapFailed, s)
    else if s.as.brkEnd < newBrk then
      match growHeap s.as.pt (pageCount s.as.brkEnd newBrk) s.as.brkEnd s.mm.machine with
      | (false, m) => (mapFailed, s.setMachine m)
      | (true, m) => (newBrk, { s.setMachine m with as := { s.as with brkEnd := newBrk } })
    else
      let m := unmapRange s.as.pt newBrk s.as.brkEnd s.mm.machine
      (newBrk, { s.setMachine m with as := { s.as with brkEnd := newBrk } })

def PhysMem.copyFrame (mem : PhysMem) (dst src : ℕ) : PhysMem := update mem dst (mem src)

def handleFault (root pageAddr : ℕ) (prot : BitVec 32) (m : Machine P) : ℤ × Machine P :=
  let oldPhys := mmuResolve root pageAddr m
  let (phys, pool) := allocPage m.pool
  if oldPhys ≠ 0 ∧ hasFlag (mmuGetFlags root pageAddr m) pteCow then
    if phys = 0 then (-eNOMEM, { m with pool := pool })
    else
      let m := { pool := pool, mem := m.mem.copyFrame (physToPfn phys) (physToPfn oldPhys) }
      let m := (mmuUnmap root pageAddr m).2
      (0, (mmuMap root pageAddr phys (vmmProtToPteFlags prot) m).2)
  else
    if phys = 0 then (-eNOMEM, { m with pool := pool })
    else
      let (r, m) := mmuMap root pageAddr phys (vmmProtToPteFlags prot)
        { pool := pool, mem := m.mem.zeroFrame (physToPfn phys) }
      if r ≠ 0 then (r, { m with pool := freePage phys m.pool }) else (0, m)

def vmmHandlePageFault (addr : ℕ) (errorCode : BitVec 32) (s : Space P) : Option (ℤ × Space P) := do
  let vma ← vmmFindVma addr s
  if vma = 0 then some (-eFAULT, s)
  else do
    let v ← s.mm.vmas vma
    if hasFlag errorCode 0x2 ∧ !hasFlag v.val.flags vmaWrite then some (-eACCES, s)
    else
      let (r, m) := handleFault s.as.pt (alignDown addr pageSize) v.val.prot s.mm.machine
      some (r, s.setMachine m)

end Obelisk
