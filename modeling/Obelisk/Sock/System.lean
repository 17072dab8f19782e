import Obelisk.Proc.Files
import Obelisk.Sock.Step

/-!
# Processes with their files and sockets

The calls of `Kern` and the socket calls on one state.
-/

namespace Obelisk

/-- The kernel and its sockets. -/
structure Sys where
  kern : Kern
  socks : SockTable

/-- A system call. -/
inductive SysOp
  | kern (op : KernOp)
  | sock (p : ℕ) (op : SockOp)

def SysOp.caller : SysOp → ℕ
  | kern op => op.caller
  | sock p _ => p

namespace Sys

def pid (s : Sys) (p : ℕ) : ℕ := (s.kern.procs.get p).pid

def sysClose (p : ℕ) (fd : ℤ) (s : Sys) : (ℤ × List UInt8) × Sys :=
  match sysCloseSocket (s.pid p) fd s.socks with
  | some S => ((0, []), { s with socks := S })
  | none =>
    let r := (KernOp.closeFile p fd).perform s.kern
    ((r.1, []), { s with kern := r.2 })

end Sys

def SysOp.perform : SysOp → Sys → (ℤ × List UInt8) × Sys
  | kern (.closeFile p fd), s => s.sysClose p fd
  | sock p (.close fd), s => s.sysClose p fd
  | kern op, s =>
    let r := op.perform s.kern
    ((r.1, []), { s with kern := r.2 })
  | sock p op, s =>
    let r := op.perform (s.pid p) s.socks
    (r.1, { s with socks := r.2 })

def sysStep (op : SysOp) (s : Sys) : (ℤ × List UInt8) × Sys :=
  if s.kern.procs.runnable op.caller then op.perform s else ((0, []), s)

def Sys.boot (k : Kern) : Sys := ⟨k, SockTable.init⟩

def SysOp.asSock : SysOp → Option (ℕ × SockOp)
  | kern (.closeFile p fd) => some (p, .close fd)
  | kern _ => none
  | sock p op => some (p, op)

def SysOp.asKern : SysOp → Option KernOp
  | kern op => some op
  | sock p (.close fd) => some (.closeFile p fd)
  | sock _ _ => none

/-- What a system call does. -/
inductive SysStep (op : SysOp) (s : Sys) : ℤ × List UInt8 → Sys → Prop
  | idle : s.kern.procs.runnable op.caller = false → SysStep op s (0, []) s
  | sock (p : ℕ) (sop : SockOp) (r : ℤ × List UInt8) (S : SockTable) : op.asSock = some (p, sop) →
      s.kern.procs.runnable op.caller = true → SockStep (s.pid p) sop s.socks r S →
      SysStep op s r { s with socks := S }
  | kern (kop : KernOp) : op.asKern = some kop → s.kern.procs.runnable op.caller = true →
      SysStep op s ((kernStep kop s.kern).1, []) { s with kern := (kernStep kop s.kern).2 }

variable {op : SysOp} {s : Sys}

lemma asSock_caller {p : ℕ} {sop : SockOp} (h : op.asSock = some (p, sop)) : op.caller = p := by
  cases op with
  | kern kop =>
    cases kop with
    | closeFile q fd => exact congrArg Prod.fst (Option.some.inj h)
    | _ => cases h
  | sock q sop' => exact congrArg Prod.fst (Option.some.inj h)

lemma asKern_caller {kop : KernOp} (h : op.asKern = some kop) : op.caller = kop.caller := by
  cases op with
  | kern kop' => rw [← Option.some.inj h]; rfl
  | sock q sop =>
    cases sop with
    | close fd => rw [← Option.some.inj h]; rfl
    | _ => cases h

lemma kern_step {kop : KernOp} (h : op.asKern = some kop) (hrun : s.kern.procs.runnable op.caller = true) :
    SysStep op s ((kop.perform s.kern).1, []) { s with kern := (kop.perform s.kern).2 } := by
  have heq : kernStep kop s.kern = kop.perform s.kern := if_pos (asKern_caller h ▸ hrun)
  rw [← heq]
  exact .kern kop h hrun

lemma sysClose_step {p : ℕ} {fd : ℤ} (h : op.asSock = some (p, .close fd))
    (h' : op.asKern = some (.closeFile p fd)) (hrun : s.kern.procs.runnable op.caller = true) :
    SysStep op s (s.sysClose p fd).1 (s.sysClose p fd).2 := by
  have hsock := perform_step (s.pid p) (.close fd) s.socks
  rw [Sys.sysClose]
  simp only [SockOp.perform] at hsock
  cases hclose : sysCloseSocket (s.pid p) fd s.socks with
  | some S =>
    rw [hclose] at hsock
    exact .sock p (.close fd) _ S h hrun hsock
  | none => exact kern_step h' hrun

/-- Every call is a socket call or a call on processes and files. -/
theorem sysStep_cases (op : SysOp) (s : Sys) : SysStep op s (sysStep op s).1 (sysStep op s).2 := by
  rw [sysStep]
  split_ifs with hrun
  · cases op with
    | kern kop =>
      cases kop with
      | closeFile p fd => exact sysClose_step rfl rfl hrun
      | _ => exact kern_step rfl hrun
    | sock p sop =>
      cases sop with
      | close fd => exact sysClose_step rfl rfl hrun
      | _ => exact .sock p _ _ _ rfl hrun (perform_step ..)
  · exact .idle (Bool.eq_false_iff.mpr hrun)

/-- The invariant of the system. -/
structure Sys.Ok (s : Sys) : Prop where
  base : s.kern.Base
  tables : TableOk s.kern.procs s.kern.io.tables

lemma Sys.Ok.step (h : s.Ok) (op : SysOp) : (sysStep op s).2.Ok := by
  have hstep := sysStep_cases op s
  generalize sysStep op s = r at hstep ⊢
  obtain ⟨r, s'⟩ := r
  cases hstep with
  | idle _ => exact h
  | sock p sop r S _ _ _ => exact ⟨h.base, h.tables⟩
  | kern kop _ _ => exact ⟨h.base.step kop, (files_step h.base h.tables kop).1⟩

lemma Sys.Ok.boot {k : Kern} {a b : CreateAns} (h : processInit a b = some k) : (Sys.boot k).Ok :=
  ⟨(processInit_mm h).1, (processInit_files h).1⟩

end Obelisk
