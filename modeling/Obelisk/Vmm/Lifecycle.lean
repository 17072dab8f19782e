import Obelisk.Vmm.Model

/-!
# Creating, destroying and cloning address spaces

The functions of `kernel/mm/vmm.c` that act on whole address spaces, and the operations of a
process on its own: `VmOp` and its runs.
-/

namespace Obelisk

open KLib

variable {P : Type} [FramePool P]

def freshAddressSpace (pt : ℕ) : AddressSpace where
  pt := pt
  vmaList := 0
  vmaCount := 0
  totalVm := 0
  brkStart := userHeapBase
  brkEnd := userHeapBase
  startCode := 0
  endCode := 0
  startData := 0
  endData := 0
  startStack := 0

def vmmCreateAddressSpace (kernelPml4 : ℕ) (mm : Mm P) : Option AddressSpace × Mm P :=
  let (as, mm) := kzalloc mm
  if as = 0 then (none, mm)
  else
    let (pt, mm) := kzalloc mm
    if pt = 0 then (none, mm)
    else
      let (pml4Phys, m) := mmuCreatePageTable kernelPml4 mm.machine
      let mm := { mm with machine := m }
      if pml4Phys = 0 then (none, mm) else (some (freshAddressSpace (physToPfn pml4Phys)), mm)

def vmmDestroyLoop : ℕ → ℕ → Mm P → Option (Mm P)
  | 0, _, _ => none
  | n + 1, vma, mm =>
    if vma = 0 then some mm
    else do
      let v ← mm.vmas vma
      vmmDestroyLoop n v.next (vmmFreeVma vma mm)

/-- `vmm_destroy_address_space` of an address space other than the kernel's. Of the page table it
frees the PML4 only. -/
def vmmDestroyAddressSpace (as : AddressSpace) (mm : Mm P) : Option (Mm P) := do
  let mm ← vmmDestroyLoop (as.vmaCount + 1) as.vmaList mm
  some { mm with machine := { mm.machine with
    pool := FramePool.freePage (pfnToPhys as.pt) mm.machine.pool } }

def clonePages (src dst : ℕ) : ℕ → ℕ → Machine P → Bool × Machine P
  | 0, _, m => (true, m)
  | n + 1, addr, m =>
    let phys := mmuResolve src addr m
    if phys ≠ 0 then
      let flags := mmuGetFlags src addr m
      let (newPhys, pool) := FramePool.allocPages 1 m.pool
      if newPhys = 0 then (false, { m with pool := pool })
      else
        let m := { pool := pool, mem := m.mem.copyFrame (physToPfn newPhys) (physToPfn phys) }
        let m := (mmuMap dst addr newPhys (flags &&& ~~~pteCow) m).2
        clonePages src dst n (addr + pageSize) m
    else clonePages src dst n (addr + pageSize) m

/-- The outer loop of `vmm_clone_address_space`, over the areas of the parent; the space is the
child's. -/
def vmmCloneLoop (src : ℕ) : ℕ → ℕ → Space P → Option (Bool × Space P)
  | 0, _, _ => none
  | n + 1, vma, s =>
    if vma = 0 then some (true, s)
    else do
      let v ← s.mm.vmas vma
      let a := v.val
      let (newVma, mm) := vmmCreateVma a.start a.stop a.flags s.mm
      let s := { s with mm := mm }
      if newVma = 0 then some (false, s)
      else do
        let vmas ← s.mm.vmas.modify newVma fun c => { c with val := { c.val with
          prot := a.prot, file := a.file, offset := a.offset } }
        let (_, s) ← vmmInsertVma newVma (s.setVmas vmas)
        let (ok, m) := clonePages src s.as.pt (pageCount a.start a.stop) a.start s.mm.machine
        if ok then vmmCloneLoop src n v.next (s.setMachine m) else some (false, s.setMachine m)

def vmmCloneAddressSpace (kernelPml4 : ℕ) (as : AddressSpace) (mm : Mm P) :
    Option (Option AddressSpace × Mm P) :=
  match vmmCreateAddressSpace kernelPml4 mm with
  | (none, mm) => some (none, mm)
  | (some newAs, mm) => do
    let (ok, s) ← vmmCloneLoop as.pt (as.vmaCount + 1) as.vmaList ⟨newAs, mm⟩
    if ok then
      some (some { s.as with
        brkStart := as.brkStart
        brkEnd := as.brkEnd
        startCode := as.startCode
        endCode := as.endCode
        startData := as.startData
        endData := as.endData
        startStack := as.startStack }, s.mm)
    else do
      let mm ← vmmDestroyAddressSpace s.as s.mm
      some (none, mm)

/-- An operation on an address space. -/
inductive VmOp
  | mmap (addr length : ℕ) (prot flags : BitVec 32) (file : ℕ) (offset : BitVec 64)
  | munmap (addr length : ℕ)
  | brk (addr : ℕ)
  | fault (addr : ℕ) (errorCode : BitVec 32)
  deriving DecidableEq, Repr

def VmOp.exec : VmOp → Space P → Option (Space P)
  | mmap addr length prot flags file offset, s =>
    (vmmMmap addr length prot flags file offset s).map Prod.snd
  | munmap addr length, s => (vmmMunmap addr length s).map Prod.snd
  | brk addr, s => some (vmmBrk addr s).2
  | fault addr errorCode, s => (vmmHandlePageFault addr errorCode s).map Prod.snd

def vmRun : List VmOp → Space P → Option (Space P)
  | [], s => some s
  | op :: ops, s => (op.exec s).bind (vmRun ops)

end Obelisk
