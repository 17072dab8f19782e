import Obelisk.Lib.ObjHeap
import Obelisk.Net.Model
import Obelisk.Sched.Model

/-!
# Processes, address spaces and open files

`kernel/proc/process.c`, `fork.c` and the end of `do_execve`, with the descriptor calls of
`syscall.c`: who holds a reference to which address space, descriptor table and file.

Everything is allocated on a heap and named by its address, with `0` for `NULL`. Where the source
asks an allocator, the answer is an argument; an address that is in use stands for a failure, as no
allocator returns it. Credentials, signals, the kernel stack and the CPU context are left out.
-/

namespace Obelisk

open KLib Function

def pidMax : ℕ := 32768
def procMaxFds : ℕ := 1024
def oCloexec : ℕ := 0x80000
def cloneVm : ℕ := 0x100
def cloneFiles : ℕ := 0x400
def cloneVfork : ℕ := 0x4000
def cloneParent : ℕ := 0x8000
def eBadf : ℤ := -9
def eChild : ℤ := -10
def eNomem : ℤ := -12

def kernelAs : ℕ := 1

def hasBit (flags bit : ℕ) : Bool := flags &&& bit != 0

/-! ## Processes -/

/-- `struct process`, as far as the functions below read and write it. -/
structure Process where
  pid : ℕ
  state : ProcState
  /-- `PROC_FLAG_KERNEL`. -/
  kernel : Bool
  parent : ℕ
  children : List ℕ
  mm : ℕ
  files : ℕ
  exitCode : ℤ

instance : Inhabited Process := ⟨⟨0, .dead, false, 0, [], 0, 0, 0⟩⟩

/-- The processes on `all_processes` and the table of process identifiers. -/
@[ext]
structure Procs where
  table : ObjHeap Process
  pidTable : ℕ → ℕ
  nextPid : ℕ

namespace Procs

def get (P : Procs) (p : ℕ) : Process := (P.table.lookup p).getD default

def upd (P : Procs) (p : ℕ) (f : Process → Process) : Procs :=
  { P with table := modify p f P.table }

def allocPid (P : Procs) : Option (ℕ × Procs) :=
  let free := fun pid => P.pidTable pid == 0
  match (List.range' P.nextPid (pidMax - P.nextPid)).find? free with
  | some pid => some (pid, { P with nextPid := pid + 1 })
  | none =>
    -- wrap around
    match (List.range' 1 (P.nextPid - 1)).find? free with
    | some pid => some (pid, { P with nextPid := pid + 1 })
    | none => none

def freePid (pid : ℕ) (P : Procs) : Procs :=
  if 0 < pid ∧ pid < pidMax then { P with pidTable := update P.pidTable pid 0 } else P

def link (c : ℕ) (proc : Process) (P : Procs) : Procs :=
  let table := P.table.insert c proc
  { P with
    pidTable := update P.pidTable proc.pid c
    table := if proc.parent = 0 then table
      else modify proc.parent (fun q => { q with children := c :: q.children }) table }

def unlink (c : ℕ) (P : Procs) : Procs :=
  let proc := P.get c
  let table := modify proc.parent (fun q => { q with children := q.children.erase c }) P.table
  ({ P with table := table.erase c } : Procs).freePid proc.pid

/-- The processes that use an address space, but for one that `process_create` has not finished. -/
def users (P : Procs) (mm : ℕ) : Finset ℕ :=
  P.table.keys.filter fun p => (P.get p).mm = mm ∧ (P.get p).state ≠ .created

def runnable (P : Procs) (p : ℕ) : Bool :=
  match P.table.lookup p with
  | some proc => proc.state != .created && proc.state != .zombie && proc.state != .dead
  | none => false

end Procs

/-! ## Address spaces -/

/-- The address spaces, with their reference counts. -/
@[ext]
structure Spaces where
  refcount : ObjHeap ℤ
  /-- The processes that were using an address space when it was destroyed. -/
  victims : Finset ℕ

namespace Spaces

/-- `vmm_create_address_space` and `vmm_clone_address_space`: `0` if there is no memory. -/
def create (a : ℕ) (s : Spaces) : ℕ × Spaces :=
  if a = 0 ∨ a ∈ s.refcount then (0, s) else (a, { s with refcount := s.refcount.insert a 1 })

def destroy (mm : ℕ) (users : Finset ℕ) (s : Spaces) : Spaces :=
  { refcount := if mm = 0 ∨ mm = kernelAs then s.refcount else s.refcount.erase mm
    victims := s.victims ∪ users }

def share (mm : ℕ) (s : Spaces) : Spaces := { s with refcount := modify mm (· + 1) s.refcount }

def release (mm : ℕ) (users : Finset ℕ) (s : Spaces) : Spaces :=
  let count := (s.refcount.lookup mm).getD 0 - 1
  let s : Spaces := { s with refcount := modify mm (· - 1) s.refcount }
  if count = 0 then s.destroy mm users else s

end Spaces

/-! ## Descriptor tables and open files -/

/-- An open descriptor; `0` is no file. -/
structure FdEntry where
  file : ℕ
  flags : ℕ
  deriving DecidableEq

/-- `struct fd_table` -/
structure FdTable where
  fds : ℕ → FdEntry
  maxFds : ℕ
  nextFd : ℕ
  refcount : ℤ

instance : Inhabited FdTable := ⟨⟨fun _ => ⟨0, 0⟩, 0, 0, 0⟩⟩

/-- The descriptor tables, and the reference counts of files. -/
@[ext]
structure Files where
  tables : ObjHeap FdTable
  count : ObjHeap ℤ

namespace FdTable

def fresh : FdTable := ⟨fun _ => ⟨0, 0⟩, procMaxFds, 3, 1⟩

def setSlot (i : ℕ) (e : FdEntry) (T : FdTable) : FdTable :=
  { T with fds := update T.fds i e }

def freeSlot (T : FdTable) : Option ℕ :=
  let start := max T.nextFd 3
  let empty := fun i => (T.fds i).file == 0
  match (List.range' start (T.maxFds - start)).find? empty with
  | some i => some i
  | none => (List.range' 3 (start - 3)).find? empty

def lowerNext (fd : ℕ) (T : FdTable) : FdTable :=
  { T with nextFd := if 3 ≤ fd ∧ fd < T.nextFd then fd else T.nextFd }

def fdFree (fd : ℕ) (T : FdTable) : FdTable :=
  if 3 ≤ fd ∧ fd < T.maxFds then (T.setSlot fd ⟨0, 0⟩).lowerNext fd else T

def closeOnExec (T : FdTable) : FdTable :=
  (List.range T.maxFds).foldl (fun T i => if hasBit (T.fds i).flags oCloexec then T.fdFree i else T) T

end FdTable

namespace Files

def get (s : Files) (t : ℕ) : FdTable := (s.tables.lookup t).getD default

def upd (t : ℕ) (f : FdTable → FdTable) (s : Files) : Files :=
  { s with tables := modify t f s.tables }

def getFile (f : ℕ) (s : Files) : Files :=
  if f = 0 then s else { s with count := modify f (· + 1) s.count }

def putFile (f : ℕ) (s : Files) : Files :=
  if f = 0 then s
  else if (s.count.lookup f).getD 0 - 1 = 0 then { s with count := s.count.erase f }
  else { s with count := modify f (· - 1) s.count }

def fdTableCreate (a : ℕ) (s : Files) : ℕ × Files :=
  if a = 0 ∨ a ∈ s.tables then (0, s) else (a, { s with tables := s.tables.insert a .fresh })

def fdTableClone (old a : ℕ) (s : Files) : ℕ × Files :=
  let o := s.get old
  match s.fdTableCreate a with
  | (0, s) => (0, s)
  | (t, s) =>
    let s := (List.range o.maxFds).foldl (fun s i =>
      if (o.fds i).file = 0 then s
      else (s.upd t (·.setSlot i (o.fds i))).getFile (o.fds i).file) s
    (t, s.upd t ({ · with nextFd := o.nextFd }))

def fdTableFree (t : ℕ) (s : Files) : Files :=
  let T := s.get t
  if t = 0 then s
  else if T.refcount - 1 = 0 then
    let s := (List.range T.maxFds).foldl (fun s i =>
      if (T.fds i).file = 0 then s
      else (s.putFile (T.fds i).file).upd t (·.setSlot i ⟨0, 0⟩)) s
    { s with tables := s.tables.erase t }
  else s.upd t fun T => { T with refcount := T.refcount - 1 }

def fdAlloc (t file flags : ℕ) (s : Files) : ℤ × Files :=
  if t = 0 ∨ file = 0 then (eInval, s)
  else
    match (s.get t).freeSlot with
    | some i => (i, s.upd t fun T => { T.setSlot i ⟨file, flags⟩ with nextFd := i + 1 })
    | none => (eMfile, s.upd t fun T => { T with nextFd := max T.nextFd 3 })

def vfsOpen (ans : Except ℤ ℕ) (s : Files) : Except ℤ ℕ × Files :=
  match ans with
  | .error e => (.error e, s)
  | .ok f =>
    if f = 0 ∨ f ∈ s.count then (.error eNomem, s)
    else (.ok f, { s with count := s.count.insert f 1 })

/-- `vfs_close`: the file is freed whatever its count. -/
def vfsClose (f : ℕ) (s : Files) : Files := { s with count := s.count.erase f }

def sysOpen (t flags : ℕ) (ans : Except ℤ ℕ) (s : Files) : ℤ × Files :=
  match s.vfsOpen ans with
  | (.error e, s) => (e, s)
  | (.ok f, s) =>
    let r := s.fdAlloc t f (if hasBit flags oCloexec then oCloexec else 0)
    if r.1 < 0 then (r.1, r.2.vfsClose f) else r

def fdGet (t : ℕ) (fd : ℤ) (s : Files) : ℕ :=
  if 0 ≤ fd ∧ fd < (s.get t).maxFds then ((s.get t).fds fd.toNat).file else 0

def sysClose (t : ℕ) (fd : ℤ) (s : Files) : ℤ × Files :=
  let file := s.fdGet t fd
  if file = 0 then (eBadf, s)
  else (0, (s.upd t fun T => (T.setSlot fd.toNat ⟨0, 0⟩).lowerNext fd.toNat).putFile file)

def sysDup (t : ℕ) (oldfd : ℤ) (s : Files) : ℤ × Files :=
  let file := s.fdGet t oldfd
  if file = 0 then (eBadf, s)
  else
    let r := s.fdAlloc t file ((s.get t).fds oldfd.toNat).flags
    if r.1 < 0 then r else (r.1, r.2.getFile file)

def sysDup2 (t : ℕ) (oldfd newfd : ℤ) (s : Files) : ℤ × Files :=
  let file := s.fdGet t oldfd
  if ¬ (0 ≤ newfd ∧ newfd < (s.get t).maxFds) ∨ file = 0 then (eBadf, s)
  else if oldfd = newfd then (newfd, s)
  else
    let target := s.fdGet t newfd
    let s := if target = 0 then s
      else (s.upd t (·.setSlot newfd.toNat ⟨0, 0⟩)).putFile target
    let s := s.getFile file
    (newfd, s.upd t fun T => T.setSlot newfd.toNat ⟨file, (T.fds oldfd.toNat).flags⟩)

end Files

/-! ## The kernel -/

/-- Processes, address spaces and files. -/
@[ext]
structure Kern where
  procs : Procs
  vm : Spaces
  io : Files

/-- What the allocations of `process_create` answer. -/
structure CreateAns where
  proc : ℕ
  stack : Bool
  mm : ℕ
  files : ℕ
  cred : Bool
  deriving DecidableEq

/-- What the allocations of a fork answer. -/
structure ForkAns where
  create : CreateAns
  mm : ℕ
  files : ℕ
  cred : Bool
  deriving DecidableEq

def processCreate (cur : ℕ) (kernel : Bool) (a : CreateAns) (k : Kern) : ℕ × Kern :=
  if a.proc = 0 ∨ a.proc ∈ k.procs.table then (0, k)
  else
    match k.procs.allocPid with
    | none => (0, k)
    | some (pid, P) =>
      let m := if kernel then (kernelAs, k.vm) else k.vm.create a.mm
      let t := k.io.fdTableCreate a.files
      let drop := if kernel then m.2 else m.2.destroy m.1 (P.users m.1)
      if !a.stack || m.1 = 0 then (0, { k with procs := P.freePid pid })
      else if t.1 = 0 then (0, { k with procs := P.freePid pid, vm := drop })
      else if !a.cred then
        (0, { procs := P.freePid pid, vm := drop, io := t.2.fdTableFree t.1 })
      else
        (a.proc, {
          procs := P.link a.proc
            { pid := pid, state := .created, kernel := kernel, parent := cur, children := [],
              mm := m.1, files := t.1, exitCode := 0 }
          vm := m.2
          io := t.2 })

def processDestroy (c : ℕ) (k : Kern) : Kern :=
  let proc := k.procs.get c
  let P := k.procs.unlink c
  { procs := P
    vm := if !proc.kernel ∧ proc.mm ≠ 0 then k.vm.release proc.mm (P.users proc.mm) else k.vm
    io := k.io.fdTableFree proc.files }

def dropDefaults (c : ℕ) (k : Kern) : Kern :=
  let proc := k.procs.get c
  { procs := k.procs.upd c ({ · with mm := 0, files := 0 })
    vm := k.vm.destroy proc.mm (k.procs.users proc.mm)
    io := k.io.fdTableFree proc.files }

def Spaces.copyMm (mm flags a : ℕ) (s : Spaces) : ℕ × Spaces :=
  if mm = 0 then (0, s) else if hasBit flags cloneVm then (mm, s.share mm) else s.create a

def Files.copyFiles (t flags a : ℕ) (s : Files) : ℕ × Files :=
  if t = 0 then (0, s)
  else if hasBit flags cloneFiles then
    (t, s.upd t fun T => { T with refcount := T.refcount + 1 })
  else s.fdTableClone t a

def Procs.reparent (c p : ℕ) (P : Procs) : Procs :=
  let old := (P.get c).parent
  let new := (P.get p).parent
  let P := P.upd old fun q => { q with children := q.children.erase c }
  let P := P.upd c ({ · with parent := new })
  if new = 0 then P else P.upd new fun q => { q with children := c :: q.children }

def forkChild (c p flags : ℕ) (a : ForkAns) (k : Kern) : ℤ × Kern :=
  let m := k.vm.copyMm (k.procs.get p).mm flags a.mm
  let k := { k with procs := k.procs.upd c ({ · with mm := m.1 }), vm := m.2 }
  if m.1 = 0 then (eNomem, processDestroy c k)
  else
    let t := k.io.copyFiles (k.procs.get p).files flags a.files
    let k := { k with procs := k.procs.upd c ({ · with files := t.1 }), io := t.2 }
    if t.1 = 0 || !a.cred then (eNomem, processDestroy c k)
    else
      let P := if hasBit flags cloneParent then k.procs.reparent c p else k.procs
      -- scheduler_enqueue
      ((P.get c).pid, { k with procs := P.upd c ({ · with state := .ready }) })

def doFork (p flags : ℕ) (a : ForkAns) (k : Kern) : ℤ × Kern :=
  match processCreate p false a.create k with
  | (0, k) => (eNomem, k)
  | (c, k) => forkChild c p flags a (dropDefaults c k)

/-- `do_execve`, called by process `p`: `a` is the new address space, and `ok` says that loading the
image and setting up the stack succeeded. -/
def doExecve (p a : ℕ) (ok : Bool) (k : Kern) : ℤ × Kern :=
  match k.vm.create a with
  | (0, _) => (eNomem, k)
  | (m, vm) =>
    let old := (k.procs.get p).mm
    let P := k.procs.upd p ({ · with mm := m })
    if !ok then
      let P := P.upd p ({ · with mm := old })
      (eNomem, { k with procs := P, vm := vm.destroy m (P.users m) })
    else
      (0, {
        procs := P
        vm := if old ≠ 0 ∧ old ≠ kernelAs then vm.destroy old (P.users old) else vm
        io := k.io.upd (k.procs.get p).files FdTable.closeOnExec })

def doExit (p : ℕ) (code : ℤ) (k : Kern) : ℤ × Kern :=
  (0, { k with procs := k.procs.upd p ({ · with exitCode := code, state := .zombie }) })

def Procs.zombieChild (P : Procs) (p : ℕ) (pid : ℤ) : Option ℕ :=
  (P.get p).children.find? fun c => (pid == -1 || (P.get c).pid == pid) && (P.get c).state == .zombie

/-- One turn of the loop of `do_wait`, called by process `p`; `0` if there is nothing to reap yet. -/
def doWait (p : ℕ) (pid : ℤ) (k : Kern) : ℤ × Kern :=
  match k.procs.zombieChild p pid with
  | some z => ((k.procs.get z).pid, processDestroy z k)
  | none => (if (k.procs.get p).children.isEmpty then eChild else 0, k)

/-! ## Runs -/

/-- The system calls of a process. -/
inductive KernOp
  | fork (p flags : ℕ) (a : ForkAns)
  | execve (p a : ℕ) (ok : Bool)
  | exit (p : ℕ) (code : ℤ)
  | wait (p : ℕ) (pid : ℤ)
  | openFile (p flags : ℕ) (ans : Except ℤ ℕ)
  | closeFile (p : ℕ) (fd : ℤ)
  | dup (p : ℕ) (fd : ℤ)
  | dup2 (p : ℕ) (oldfd newfd : ℤ)

def KernOp.caller : KernOp → ℕ
  | fork p .. | execve p .. | exit p .. | wait p .. | openFile p .. | closeFile p .. | dup p ..
  | dup2 p .. => p

def Kern.onFiles (p : ℕ) (f : ℕ → Files → ℤ × Files) (k : Kern) : ℤ × Kern :=
  let r := f (k.procs.get p).files k.io
  (r.1, { k with io := r.2 })

def KernOp.perform : KernOp → Kern → ℤ × Kern
  | fork p flags a, k => doFork p flags a k
  | execve p a ok, k => doExecve p a ok k
  | exit p code, k => doExit p code k
  | wait p pid, k => doWait p pid k
  | openFile p flags ans, k => k.onFiles p fun t => Files.sysOpen t flags ans
  | closeFile p fd, k => k.onFiles p fun t => Files.sysClose t fd
  | dup p fd, k => k.onFiles p fun t => Files.sysDup t fd
  | dup2 p oldfd newfd, k => k.onFiles p fun t => Files.sysDup2 t oldfd newfd

def kernStep (op : KernOp) (k : Kern) : ℤ × Kern :=
  if k.procs.runnable op.caller then op.perform k else (0, k)

def Kern.empty : Kern where
  procs := ⟨∅, fun _ => 0, 1⟩
  vm := ⟨Finmap.singleton kernelAs 1, ∅⟩
  io := ⟨∅, ∅⟩

/-- `process_init`: the idle process and `init`, both in the kernel's address space. It panics if one
of them cannot be created. -/
def processInit (a b : CreateAns) : Option Kern :=
  match processCreate 0 true a .empty with
  | (0, _) => none
  | (idle, k) =>
    match processCreate 0 true b { k with procs := k.procs.upd idle ({ · with state := .ready }) } with
    | (0, _) => none
    | (init, k) => some { k with procs := k.procs.upd init ({ · with state := .ready }) }

end Obelisk
