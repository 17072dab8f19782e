import Mathlib.Data.Int.Notation
import Obelisk.Lib.Run

/-!
# Credentials and the calls that change them

The eight calls of `kernel/arch/x86_64/process/syscall.c` that move user and group ids between the
fields of `struct cred`. The user and the group version of a call differ only in the fields they
work on and both test `euid`, so that each pair is one function on a quadruple of ids.

The calling process has credentials: the answer `-ESRCH` of a process without them is left out.
-/

namespace Obelisk

open KLib

abbrev Id32 := UInt32

def idNone : Id32 := 0xFFFFFFFF

def ePerm : ℤ := -1

/-- The four ids of one kind. -/
structure Ids where
  real : Id32
  eff : Id32
  saved : Id32
  fs : Id32
  deriving DecidableEq, Repr

/-- `struct cred` -/
structure Cred where
  uid : Id32
  euid : Id32
  suid : Id32
  fsuid : Id32
  gid : Id32
  egid : Id32
  sgid : Id32
  fsgid : Id32
  deriving DecidableEq, Repr

namespace Ids

def credMatch (c : Ids) (id : Id32) : Bool := c.real == id || c.eff == id || c.saved == id

def refuses (c : Ids) (root : Bool) (ids : List Id32) : Bool :=
  !root && ids.any fun id => id != idNone && !c.credMatch id

def set (root : Bool) (id : Id32) (c : Ids) : Option Ids :=
  if root then some ⟨id, id, id, id⟩
  else if !c.credMatch id then none
  else some { c with eff := id, fs := id }

def assign (rid eid : Id32) (c : Ids) : Ids :=
  let c := if rid != idNone then { c with real := rid } else c
  if eid != idNone then { c with eff := eid, fs := eid } else c

def setre (root : Bool) (rid eid : Id32) (c : Ids) : Option Ids :=
  if c.refuses root [rid, eid] then none
  else
    let c := c.assign rid eid
    some { c with saved := c.eff }

def setres (root : Bool) (rid eid sid : Id32) (c : Ids) : Option Ids :=
  if c.refuses root [rid, eid, sid] then none
  else
    let c := c.assign rid eid
    some (if sid != idNone then { c with saved := sid } else c)

/-- `sys_setfsuid` and `sys_setfsgid`; a refused id is ignored. -/
def setfs (root : Bool) (id : Id32) (c : Ids) : Ids :=
  if root || c.credMatch id then { c with fs := id } else c

end Ids

namespace Cred

def user (c : Cred) : Ids := ⟨c.uid, c.euid, c.suid, c.fsuid⟩

def group (c : Cred) : Ids := ⟨c.gid, c.egid, c.sgid, c.fsgid⟩

def setUser (c : Cred) (u : Ids) : Cred :=
  { c with uid := u.real, euid := u.eff, suid := u.saved, fsuid := u.fs }

def setGroup (c : Cred) (g : Ids) : Cred :=
  { c with gid := g.real, egid := g.eff, sgid := g.saved, fsgid := g.fs }

def root (c : Cred) : Bool := c.euid == 0

def storeUser (c : Cred) : Option Ids → ℤ × Cred
  | none => (ePerm, c)
  | some u => (0, c.setUser u)

def storeGroup (c : Cred) : Option Ids → ℤ × Cred
  | none => (ePerm, c)
  | some g => (0, c.setGroup g)

end Cred

def sysSetuid (uid : Id32) (c : Cred) : ℤ × Cred := c.storeUser (c.user.set c.root uid)

def sysSetgid (gid : Id32) (c : Cred) : ℤ × Cred := c.storeGroup (c.group.set c.root gid)

def sysSetreuid (ruid euid : Id32) (c : Cred) : ℤ × Cred :=
  c.storeUser (c.user.setre c.root ruid euid)

def sysSetregid (rgid egid : Id32) (c : Cred) : ℤ × Cred :=
  c.storeGroup (c.group.setre c.root rgid egid)

def sysSetresuid (ruid euid suid : Id32) (c : Cred) : ℤ × Cred :=
  c.storeUser (c.user.setres c.root ruid euid suid)

def sysSetresgid (rgid egid sgid : Id32) (c : Cred) : ℤ × Cred :=
  c.storeGroup (c.group.setres c.root rgid egid sgid)

def sysSetfsuid (fsuid : Id32) (c : Cred) : ℤ × Cred :=
  (c.fsuid.toNat, c.setUser (c.user.setfs c.root fsuid))

def sysSetfsgid (fsgid : Id32) (c : Cred) : ℤ × Cred :=
  (c.fsgid.toNat, c.setGroup (c.group.setfs c.root fsgid))

/-- The system calls that change ids. -/
inductive CredCall
  | setuid (uid : Id32)
  | setgid (gid : Id32)
  | setreuid (ruid euid : Id32)
  | setregid (rgid egid : Id32)
  | setresuid (ruid euid suid : Id32)
  | setresgid (rgid egid sgid : Id32)
  | setfsuid (fsuid : Id32)
  | setfsgid (fsgid : Id32)

def CredCall.exec : CredCall → Cred → ℤ × Cred
  | setuid uid => sysSetuid uid
  | setgid gid => sysSetgid gid
  | setreuid ruid euid => sysSetreuid ruid euid
  | setregid rgid egid => sysSetregid rgid egid
  | setresuid ruid euid suid => sysSetresuid ruid euid suid
  | setresgid rgid egid sgid => sysSetresgid rgid egid sgid
  | setfsuid fsuid => sysSetfsuid fsuid
  | setfsgid fsgid => sysSetfsgid fsgid

def credRun (calls : List CredCall) (c : Cred) : Cred := (runOps CredCall.exec calls c).2

end Obelisk
