import Obelisk.Lib.Text

/-!
# `strncpy`

`strncpy` of `kernel/lib/string.c`, which `userland/libc/string.c` repeats word by word. The stores are
listed in their order, by index from `dest` on; the bytes behind `src` begin with a `NUL`.
-/

namespace Obelisk.Strncpy

open KLib List

/-- The first loop from index `i` on: its stores, and the index and the count it leaves. -/
def copyLoop : ℕ → ℕ → Bytes → List (ℕ × UInt8) × ℕ × ℕ
  | i, 0, _ => ([], i, 0)
  | i, n + 1, src =>
    let c := src.headD 0
    -- the terminator is stored, and ends the loop before `n` is decremented
    if c = 0 then ([(i, c)], i + 1, n + 1)
    else
      let r := copyLoop (i + 1) n src.tail
      ((i, c) :: r.1, r.2)

def fillLoop : ℕ → ℕ → List (ℕ × UInt8)
  | _, 0 => []
  | i, n + 1 => (i, 0) :: fillLoop (i + 1) n

def strncpy (src : Bytes) (n : ℕ) : List (ℕ × UInt8) :=
  let (stores, i, n) := copyLoop 0 n src
  stores ++ fillLoop i n

lemma fillLoop_eq (i n : ℕ) : fillLoop i n = (range' i n).map (·, 0) := by
  induction n generalizing i with
  | zero => rfl
  | succ n ih => rw [fillLoop, ih, range'_succ, map_cons]

lemma copyLoop_fst (i n : ℕ) (src : Bytes) : let r := copyLoop i n src
    r.1 ++ fillLoop r.2.1 r.2.2 = (range' i (if n ≤ (cstr src).length then n else n + 1)).map
        fun j => (j, (cstr src).getD (j - i) 0) := by
  induction n generalizing i src with
  | zero => simp [copyLoop, fillLoop]
  | succ n ih =>
    have hcstr : src.headD 0 ≠ 0 → cstr src = src.headD 0 :: cstr src.tail := by
      cases src <;> simp +contextual [cstr]
    by_cases h0 : src.headD 0 = 0
    · have hnil : cstr src = [] := by cases src <;> simp_all [cstr]
      simp [copyLoop, -headD_eq_head?_getD, h0, hnil, fillLoop_eq, range'_succ]
    simp only [copyLoop, if_neg h0, cons_append, ih, hcstr h0, length_cons, Nat.add_le_add_iff_right]
    have hsplit : (if n ≤ (cstr src.tail).length then n + 1 else n + 1 + 1) =
        (if n ≤ (cstr src.tail).length then n else n + 1) + 1 := by
      split_ifs <;> rfl
    rw [hsplit, range'_succ, map_cons, Nat.sub_self, getD_cons_zero]
    congr 1
    refine map_congr_left fun j hj => ?_
    have := (mem_range'_1.mp hj).1
    rw [show j - i = j - (i + 1) + 1 by omega, getD_cons_succ]

/-- **`strncpy` stays in its bound** exactly if the source fills it: with a shorter source `n + 1` bytes
are written. -/
theorem strncpy_exact_iff (src : Bytes) (n : ℕ) :
    strncpy src n = (range n).map (fun i => (i, (cstr src).getD i 0)) ↔ n ≤ (cstr src).length := by
  have hrun : strncpy src n = (range' 0 (if n ≤ (cstr src).length then n else n + 1)).map
      fun j => (j, (cstr src).getD j 0) := copyLoop_fst 0 n src
  rw [hrun, range_eq_range']
  constructor
  · intro heq
    by_contra hn
    have := congrArg length heq
    rw [if_neg hn, length_map, length_map, length_range', length_range'] at this
    omega
  intro hn
  rw [if_pos hn]

theorem strncpy_writes_behind : strncpy (str "ab") 3 = [(0, 97), (1, 98), (2, 0), (3, 0)] := by
  decide +kernel

end Obelisk.Strncpy
