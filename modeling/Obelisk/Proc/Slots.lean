import Obelisk.Proc.Fork

/-!
# Descriptor slots and `f_count`

How the calls on one descriptor table change the number of its slots that refer to a file, and how
`get_file` and `put_file` follow.
-/

namespace Obelisk

open KLib Function Finset Finmap

variable {m n : ℕ}

def held (n : ℕ) : Option ℤ := if n = 0 then none else some n

@[simp] lemma held_zero : held 0 = none := rfl

lemma held_pos (h : 0 < n) : held n = some (n : ℤ) := if_neg (Nat.pos_iff_ne_zero.mp h)

lemma held_inj : held m = held n ↔ m = n := by
  refine ⟨fun h => ?_, fun h => h ▸ rfl⟩
  rw [held, held] at h
  split_ifs at h with h1 h2 h2
  · rw [h1, h2]
  · exact Int.ofNat.inj (Option.some.inj h)

namespace FdTable

variable {T : FdTable} {f i : ℕ} {e : FdEntry}

def slotsBelow (n f : ℕ) (T : FdTable) : ℕ :=
  ∑ i ∈ range n, if (T.fds i).file = f then 1 else 0

def slots (f : ℕ) (T : FdTable) : ℕ := T.slotsBelow T.maxFds f

lemma slotsBelow_succ (n : ℕ) :
    T.slotsBelow (n + 1) f = T.slotsBelow n f + if (T.fds n).file = f then 1 else 0 :=
  sum_range_succ _ _

lemma slotsBelow_congr {T' : FdTable} (h : ∀ i < n, (T'.fds i).file = (T.fds i).file) :
    T'.slotsBelow n f = T.slotsBelow n f := by
  apply sum_congr rfl
  intro i hi
  rw [h i (mem_range.mp hi)]

@[simp] lemma setSlot_fds_self : (T.setSlot i e).fds i = e := update_self ..

lemma setSlot_fds_ne {j : ℕ} (h : j ≠ i) : (T.setSlot i e).fds j = T.fds j :=
  update_of_ne h ..

lemma slots_setSlot (hi : i < T.maxFds) : (T.setSlot i e).slots f + (if (T.fds i).file = f then 1 else 0) =
      T.slots f + if e.file = f then 1 else 0 := by
  have hmem : i ∈ range T.maxFds := mem_range.mpr hi
  have hnew := add_sum_erase (range T.maxFds) (fun j => if ((T.setSlot i e).fds j).file = f then 1 else 0) hmem
  have hold := add_sum_erase (range T.maxFds) (fun j => if (T.fds j).file = f then 1 else 0) hmem
  have hrest : ∑ j ∈ (range T.maxFds).erase i, (if ((T.setSlot i e).fds j).file = f then 1 else 0) =
      ∑ j ∈ (range T.maxFds).erase i, if (T.fds j).file = f then 1 else 0 := by
    apply sum_congr rfl
    intro j hj
    rw [setSlot_fds_ne (ne_of_mem_erase hj)]
  rw [slots, slotsBelow, slots, slotsBelow, show (T.setSlot i e).maxFds = T.maxFds from rfl,
    ← hnew, ← hold, hrest, setSlot_fds_self]
  omega

lemma slots_pos (hi : i < T.maxFds) (h : (T.fds i).file = f) : 0 < T.slots f := by
  have h1 := slots_setSlot (T := T) (f := f) (e := ⟨f + 1, 0⟩) hi
  rw [if_pos h, if_neg (Nat.succ_ne_self f)] at h1
  omega

lemma freeSlot_spec (h : T.freeSlot = some i) (hn : T.nextFd ≤ T.maxFds) (_ : 3 ≤ T.maxFds) :
    3 ≤ i ∧ i < T.maxFds ∧ (T.fds i).file = 0 := by
  dsimp only [freeSlot] at h
  split at h
  · next j hfind =>
    cases h
    have hmem := List.mem_range'_1.mp (List.mem_of_find?_eq_some hfind)
    exact ⟨by omega, by omega, by simpa using List.find?_some hfind⟩
  have hmem := List.mem_range'_1.mp (List.mem_of_find?_eq_some h)
  exact ⟨by omega, by omega, by simpa using List.find?_some h⟩

/-! ## The sweep of `do_execve` -/

def sweep (n : ℕ) (T : FdTable) : FdTable :=
  (List.range n).foldl (fun T i => if hasBit (T.fds i).flags oCloexec then T.fdFree i else T) T

lemma sweep_succ (n : ℕ) : T.sweep (n + 1) =
    if hasBit ((T.sweep n).fds n).flags oCloexec then (T.sweep n).fdFree n else T.sweep n := by
  rw [sweep, List.range_succ, List.foldl_append]
  rfl

lemma fdFree_maxFds (i : ℕ) : (T.fdFree i).maxFds = T.maxFds := by
  rw [fdFree]
  split_ifs <;> rfl

lemma fdFree_refcount (i : ℕ) : (T.fdFree i).refcount = T.refcount := by
  rw [fdFree]
  split_ifs <;> rfl

lemma lowerNext_le (i : ℕ) : (T.lowerNext i).nextFd ≤ T.nextFd := by
  rw [lowerNext]
  dsimp only
  split_ifs with h
  · omega
  · exact le_refl _

lemma fdFree_nextFd_le (i : ℕ) : (T.fdFree i).nextFd ≤ T.nextFd := by
  rw [fdFree]
  split_ifs
  · exact lowerNext_le (T := T.setSlot i ⟨0, 0⟩) i
  · exact le_refl _

lemma sweep_keeps (n : ℕ) : (T.sweep n).maxFds = T.maxFds ∧ (T.sweep n).refcount = T.refcount ∧
    (T.sweep n).nextFd ≤ T.nextFd := by
  induction n with
  | zero => exact ⟨rfl, rfl, le_refl _⟩
  | succ n ih =>
    rw [sweep_succ]
    split_ifs
    · rw [fdFree_maxFds, fdFree_refcount]
      exact ⟨ih.1, ih.2.1, (fdFree_nextFd_le n).trans ih.2.2⟩
    · exact ih

lemma sweep_fds (hn : n ≤ T.maxFds) (i : ℕ) : (T.sweep n).fds i =
    if i < n ∧ 3 ≤ i ∧ hasBit (T.fds i).flags oCloexec then ⟨0, 0⟩ else T.fds i := by
  induction n generalizing i with
  | zero => exact (if_neg fun h => Nat.not_lt_zero i h.1).symm
  | succ n ih =>
    have ih' := ih (by omega)
    have hmax := (sweep_keeps (T := T) n).1
    have hn' : (T.sweep n).fds n = T.fds n := by
      rw [ih' n, if_neg fun h => lt_irrefl n h.1]
    rw [sweep_succ, hn']
    by_cases hi : i = n
    · rw [hi]
      by_cases hbit : hasBit (T.fds n).flags oCloexec
      · rw [if_pos hbit, fdFree]
        split_ifs with h1 h2 h2
        · exact update_self ..
        · exact absurd ⟨Nat.lt_succ_self n, h1.1, hbit⟩ h2
        · exact absurd ⟨h2.2.1, by omega⟩ h1
        · exact hn'
      · rw [if_neg hbit, hn', if_neg fun h => hbit h.2.2]
    have hlt : i < n + 1 ↔ i < n := by omega
    simp only [hlt]
    rw [← ih' i]
    split_ifs
    · rw [fdFree]
      split_ifs
      · exact update_of_ne hi ..
      · rfl
    · rfl

lemma closeOnExec_eq : T.closeOnExec = T.sweep T.maxFds := rfl

/-- The sweep changes no number of references exactly if it finds nothing to close. -/
theorem slots_closeOnExec_iff : (∀ f, f ≠ 0 → T.closeOnExec.slots f = T.slots f) ↔
    ∀ i, 3 ≤ i → i < T.maxFds → hasBit (T.fds i).flags oCloexec = true → (T.fds i).file = 0 := by
  have hfds := sweep_fds (T := T) (le_refl _)
  have hmax : T.closeOnExec.maxFds = T.maxFds := (sweep_keeps _).1
  constructor
  · intro h i h3 hi hbit
    by_contra hne
    have hlt : T.closeOnExec.slots (T.fds i).file < T.slots (T.fds i).file := by
      rw [slots, hmax]
      apply sum_lt_sum
      · intro j _
        have hj : (T.closeOnExec.fds j).file = (T.fds i).file → (T.fds j).file = (T.fds i).file := by
          rw [closeOnExec_eq, hfds j]
          split_ifs
          · exact fun h0 => absurd h0.symm hne
          · exact id
        by_cases hc : (T.closeOnExec.fds j).file = (T.fds i).file
        · rw [if_pos hc, if_pos (hj hc)]
        rw [if_neg hc]
        exact Nat.zero_le _
      refine ⟨i, mem_range.mpr hi, ?_⟩
      have hzero : (T.closeOnExec.fds i).file = 0 := by
        rw [closeOnExec_eq, hfds i, if_pos ⟨hi, h3, hbit⟩]
      rw [hzero, if_neg (Ne.symm hne), if_pos rfl]
      exact Nat.zero_lt_one
    exact absurd (h _ hne) (ne_of_lt hlt)
  intro h f _
  rw [slots, hmax]
  apply slotsBelow_congr
  intro i _
  rw [closeOnExec_eq, hfds i]
  split_ifs with h1
  · exact (h i h1.2.1 h1.1 h1.2.2).symm
  · rfl

end FdTable

namespace Files

variable {s : Files} {f g t n : ℕ} {o T : FdTable}

@[simp] lemma getFile_tables (f : ℕ) (s : Files) : (s.getFile f).tables = s.tables := by
  rw [getFile]
  split_ifs <;> rfl

@[simp] lemma putFile_tables (f : ℕ) (s : Files) : (s.putFile f).tables = s.tables := by
  rw [putFile]
  split_ifs <;> rfl

lemma getFile_count_ne (h : g ≠ f) : (s.getFile f).count.lookup g = s.count.lookup g := by
  rw [getFile]
  split_ifs
  · rfl
  · exact lookup_modify_ne h

lemma putFile_count_ne (h : g ≠ f) : (s.putFile f).count.lookup g = s.count.lookup g := by
  rw [putFile]
  split_ifs
  · rfl
  · exact lookup_erase_ne h
  · exact lookup_modify_ne h

lemma getFile_count (hf : f ≠ 0) (hn : 0 < n) (h : s.count.lookup f = held n) :
    (s.getFile f).count.lookup f = held (n + 1) := by
  rw [getFile, if_neg hf]
  dsimp only
  rw [lookup_modify_self, h, held_pos hn, held_pos (Nat.succ_pos n)]
  rfl

lemma putFile_count (hf : f ≠ 0) (hn : 0 < n) (h : s.count.lookup f = held n) :
    (s.putFile f).count.lookup f = held (n - 1) := by
  rw [putFile, if_neg hf, h, held_pos hn, Option.getD_some]
  by_cases h1 : n = 1
  · rw [if_pos (by rw [h1]; rfl), h1]
    exact lookup_erase ..
  rw [if_neg (by omega)]
  dsimp only
  rw [lookup_modify_self, h, held_pos hn, held_pos (by omega : 0 < n - 1), Option.map_some]
  congr 1
  omega

def cloneLoop (o : FdTable) (t n : ℕ) (s : Files) : Files :=
  (List.range n).foldl (fun s i =>
    if (o.fds i).file = 0 then s
    else (s.upd t (·.setSlot i (o.fds i))).getFile (o.fds i).file) s

lemma cloneLoop_succ (n : ℕ) (s : Files) : cloneLoop o t (n + 1) s = if (o.fds n).file = 0 then cloneLoop o t n s
    else ((cloneLoop o t n s).upd t (·.setSlot n (o.fds n))).getFile (o.fds n).file := by
  rw [cloneLoop, List.range_succ, List.foldl_append]
  rfl

def copied (o : FdTable) (n : ℕ) : FdTable :=
  { FdTable.fresh with fds := fun i => if i < n ∧ (o.fds i).file ≠ 0 then o.fds i else ⟨0, 0⟩ }

lemma copied_succ (n : ℕ) : copied o (n + 1) =
    if (o.fds n).file = 0 then copied o n else (copied o n).setSlot n (o.fds n) := by
  have hfds : ∀ i, (copied o (n + 1)).fds i =
      if i = n ∧ (o.fds n).file ≠ 0 then o.fds n else (copied o n).fds i := by
    intro i
    dsimp only [copied]
    by_cases hin : i = n
    · rw [hin]
      simp
    have hlt : i < n + 1 ↔ i < n := by omega
    simp only [hin, hlt, false_and, if_false]
  split_ifs with h0
  · rw [copied]
    congr 1
    funext i
    have := hfds i
    rwa [if_neg fun h => h.2 h0] at this
  rw [copied]
  congr 1
  funext i
  refine (hfds i).trans ?_
  by_cases hin : i = n
  · rw [if_pos ⟨hin, h0⟩, hin, update_self]
  · rw [if_neg fun h => hin h.1, update_of_ne hin]

lemma cloneLoop_tables (n : ℕ) (ht : s.tables.lookup t = some .fresh) :
    (cloneLoop o t n s).tables = s.tables.insert t (copied o n) := by
  induction n with
  | zero =>
    have h0 : copied o 0 = .fresh := by
      rw [copied]
      congr 1
    rw [h0, insert_self ht]
    rfl
  | succ n ih =>
    rw [cloneLoop_succ, copied_succ]
    split_ifs with h0
    · exact ih
    rw [getFile_tables, upd]
    dsimp only
    rw [ih, modify_some (lookup_insert _), insert_insert]

lemma cloneLoop_count (hf : f ≠ 0) (h : s.count.lookup f = held m) (n : ℕ) (hm : 0 < o.slotsBelow n f → 0 < m) :
    (cloneLoop o t n s).count.lookup f = held (m + o.slotsBelow n f) := by
  induction n with
  | zero => exact h
  | succ n ih =>
    rw [FdTable.slotsBelow_succ] at hm ⊢
    have ih' := ih fun hpos => hm (by omega)
    rw [cloneLoop_succ]
    by_cases hfile : (o.fds n).file = f
    · rw [if_neg (hfile ▸ hf), if_pos hfile, hfile]
      have hpos : 0 < m + o.slotsBelow n f := by
        have := hm (by rw [if_pos hfile]; omega)
        omega
      exact getFile_count hf hpos ih'
    rw [if_neg hfile, add_zero]
    split_ifs with h0
    · exact ih'
    rw [getFile_count_ne (Ne.symm hfile)]
    exact ih'

def freeLoop (T : FdTable) (t n : ℕ) (s : Files) : Files :=
  (List.range n).foldl (fun s i =>
    if (T.fds i).file = 0 then s
    else (s.putFile (T.fds i).file).upd t (·.setSlot i ⟨0, 0⟩)) s

lemma freeLoop_succ (n : ℕ) (s : Files) : freeLoop T t (n + 1) s = if (T.fds n).file = 0 then freeLoop T t n s
    else ((freeLoop T t n s).putFile (T.fds n).file).upd t (·.setSlot n ⟨0, 0⟩) := by
  rw [freeLoop, List.range_succ, List.foldl_append]
  rfl

lemma freeLoop_tables (n : ℕ) : (freeLoop T t n s).tables.erase t = s.tables.erase t := by
  induction n with
  | zero => rfl
  | succ n ih =>
    rw [freeLoop_succ]
    split_ifs with h0
    · exact ih
    rw [← ih]
    apply ext_lookup
    intro b
    rw [lookup_erase_eq, lookup_erase_eq]
    split_ifs with hb
    · rfl
    rw [upd]
    dsimp only
    rw [lookup_modify_ne hb, putFile_tables]

lemma freeLoop_count (hf : f ≠ 0) (h : s.count.lookup f = held m) (n : ℕ) (hm : T.slotsBelow n f ≤ m) :
    (freeLoop T t n s).count.lookup f = held (m - T.slotsBelow n f) := by
  induction n with
  | zero => exact h
  | succ n ih =>
    rw [FdTable.slotsBelow_succ] at hm ⊢
    have ih' := ih (by omega)
    rw [freeLoop_succ]
    by_cases hfile : (T.fds n).file = f
    · rw [if_pos hfile] at hm ⊢
      rw [if_neg (hfile ▸ hf), hfile]
      exact (putFile_count hf (by omega) ih').trans (by rw [Nat.sub_sub])
    rw [if_neg hfile, add_zero]
    split_ifs with h0
    · exact ih'
    · exact (putFile_count_ne (Ne.symm hfile)).trans ih'

end Files

end Obelisk
