import Obelisk.Proc.Files

/-!
# Descriptors are given out lowest first

`fd_alloc` searches from `next_fd` on, which `fd_free` moves back and which `fd_table_clone` and
`sys_dup2` leave alone.
-/

namespace Obelisk.Lowest

open KLib Finmap FdTable Files

/-- The states that the calls lead to. -/
inductive Reach : Files → Prop
  | start (count : ObjHeap ℤ) : Reach ⟨∅, count⟩
  | create {s} (a : ℕ) : Reach s → Reach (s.fdTableCreate a).2
  | alloc {s} (t file flags : ℕ) : Reach s → Reach (s.fdAlloc t file flags).2
  | free {s} (t fd : ℕ) : Reach s → Reach (s.upd t (·.fdFree fd))
  | clone {s} (t a : ℕ) : Reach s → t ∈ s.tables → Reach (s.fdTableClone t a).2
  | dup2 {s} (t : ℕ) (oldfd newfd : ℤ) : Reach s → Reach (s.sysDup2 t oldfd newfd).2

variable {s s' : Files} {t a i n : ℕ} {T : FdTable} {e : FdEntry} {g : FdTable → FdTable}

/-- No descriptor below `nextFd` is free. -/
structure Ok (T : FdTable) : Prop where
  maxFds : T.maxFds = procMaxFds
  least : 3 ≤ T.nextFd
  most : T.nextFd ≤ procMaxFds
  full : ∀ i, 3 ≤ i → i < T.nextFd → (T.fds i).file ≠ 0

def AllOk (s : Files) : Prop := ∀ t T, s.tables.lookup t = some T → t ≠ 0 ∧ Ok T

def FreeFds (T : FdTable) : Set ℕ := {i | 3 ≤ i ∧ i < T.maxFds ∧ (T.fds i).file = 0}

lemma Ok.next_le (h : Ok T) (hi : i ∈ FreeFds T) : T.nextFd ≤ i :=
  not_lt.mp fun hlt => h.full i hi.1 hlt hi.2.2

lemma freeSlot_some (h : Ok T) (hi : T.freeSlot = some i) : IsLeast (FreeFds T) i := by
  have hmem : i ∈ FreeFds T :=
    freeSlot_spec hi (h.maxFds ▸ h.most) (h.least.trans (h.maxFds ▸ h.most))
  refine ⟨hmem, fun j hj => ?_⟩
  simp only [freeSlot, max_eq_left h.least] at hi
  split at hi
  · next k hk =>
    cases hi
    by_contra hlt
    simpa [hj.2.2] using (List.find?_range'_eq_some.mp hk).2.2 j (h.next_le hj) (not_le.mp hlt)
  have hbelow := List.mem_range'_1.mp (List.mem_of_find?_eq_some hi)
  exact absurd (h.next_le hmem) (by omega)

lemma freeSlot_none (h : Ok T) (hi : T.freeSlot = none) : FreeFds T = ∅ := by
  refine Set.eq_empty_of_forall_notMem fun j hj => ?_
  have hlt := hj.2.1
  simp only [freeSlot, max_eq_left h.least] at hi
  split at hi
  · cases hi
  · next hnone => simpa [hj.2.2] using List.find?_range'_eq_none.mp hnone j (h.next_le hj) (by omega)

/-- One slot and `next_fd` are set. -/
theorem Ok.set (h : Ok T) (h3 : 3 ≤ n) (hn : n ≤ procMaxFds) (he : i < n → e.file ≠ 0)
    (hfull : ∀ j, T.nextFd ≤ j → j < n → j ≠ i → (T.fds j).file ≠ 0) :
    Ok { T.setSlot i e with nextFd := n } := by
  refine ⟨h.maxFds, h3, hn, fun j hj hjn => ?_⟩
  by_cases hji : j = i
  · rw [hji, show FdTable.fds { T.setSlot i e with nextFd := n } i = e from setSlot_fds_self]
    exact he (hji ▸ hjn)
  rw [show FdTable.fds { T.setSlot i e with nextFd := n } j = T.fds j from setSlot_fds_ne hji]
  by_cases hlt : j < T.nextFd
  · exact h.full j hj hlt
  · exact hfull j (not_lt.mp hlt) hjn hji

lemma Ok.setSlot (h : Ok T) (he : e.file ≠ 0) : Ok (T.setSlot i e) :=
  h.set h.least h.most (fun _ => he) fun _ hj hlt => absurd hlt (not_lt.mpr hj)

lemma Ok.taken (h : Ok T) (hi : IsLeast (FreeFds T) i) (he : e.file ≠ 0) :
    Ok { T.setSlot i e with nextFd := i + 1 } := by
  refine h.set (Nat.le_succ_of_le hi.1.1) (h.maxFds ▸ hi.1.2.1) (fun _ => he) fun j hj hji hne h0 => ?_
  have hlt : j < i := lt_of_le_of_ne (Nat.le_of_lt_succ hji) hne
  exact absurd (hi.2 ⟨h.least.trans hj, hlt.trans hi.1.2.1, h0⟩) (not_le.mpr hlt)

lemma Ok.freed (h : Ok T) (fd : ℕ) : Ok (T.fdFree fd) := by
  have hmost := h.most
  have hleast := h.least
  rw [fdFree]
  split_ifs with hfd
  · refine h.set (e := ⟨0, 0⟩) (n := if 3 ≤ fd ∧ fd < T.nextFd then fd else T.nextFd) ?_ ?_ ?_ ?_
    all_goals split_ifs <;> omega
  · exact h

lemma Ok.copied (h : Ok T) : Ok { copied T T.maxFds with nextFd := T.nextFd } := by
  refine ⟨rfl, h.least, h.most, fun j h3 hj => ?_⟩
  have hfull := h.full j h3 hj
  have hmax : j < T.maxFds := h.maxFds ▸ lt_of_lt_of_le hj h.most
  simp [Files.copied, hmax, hfull]

lemma AllOk.insert (h : AllOk s) (ha : a ≠ 0) (hT : Ok T)
    (hs : s'.tables = s.tables.insert a T) : AllOk s' := by
  intro b B hb
  rw [hs] at hb
  by_cases hba : b = a
  · rw [hba, lookup_insert] at hb
    cases hb
    exact ⟨hba ▸ ha, hT⟩
  rw [lookup_insert_of_ne _ hba] at hb
  exact h b B hb

lemma AllOk.upd (h : AllOk s) (hg : ∀ T, s.tables.lookup t = some T → Ok T → Ok (g T)) :
    AllOk (s.upd t g) := by
  cases ht : s.tables.lookup t with
  | none =>
    rwa [Files.upd, modify_none ht]
  | some T => exact h.insert (h t T ht).1 (hg T ht (h t T ht).2) (modify_some ht)

lemma AllOk.dup2 (h : AllOk s) (oldfd newfd : ℤ) : AllOk (s.sysDup2 t oldfd newfd).2 := by
  rw [sysDup2]
  dsimp only
  split_ifs with hbad hsame h0
  · exact h
  · exact h
  · refine AllOk.upd (s := s.getFile _) (by rwa [AllOk, getFile_tables]) fun T _ hT => ?_
    exact hT.setSlot fun h0 => hbad (.inr h0)
  cases ht : s.tables.lookup t with
  | none => exact absurd (by rw [fdGet, Files.get, ht]; exact ite_self 0) h0
  | some T =>
    have hclear : (((s.upd t (·.setSlot newfd.toNat ⟨0, 0⟩)).putFile (s.fdGet t newfd)).getFile
        (s.fdGet t oldfd)).tables = s.tables.insert t (T.setSlot newfd.toNat ⟨0, 0⟩) := by
      rw [getFile_tables, putFile_tables, upd_tables ht]
    have hput := upd_tables (g := fun T => T.setSlot newfd.toNat ⟨s.fdGet t oldfd,
      (T.fds oldfd.toNat).flags⟩) (hclear ▸ lookup_insert _)
    rw [hclear, insert_insert, FdTable.setSlot, FdTable.setSlot, Function.update_idem] at hput
    exact h.insert (h t T ht).1 ((h t T ht).2.setSlot fun h0 => hbad (.inr h0)) hput

lemma Reach.allOk (h : Reach s) : AllOk s := by
  induction h with
  | start count => exact fun _ _ h => by cases h
  | @create s a _ ih =>
    obtain hc | ⟨ha0, _, hc⟩ := s.fdTableCreate_cases a
    · rwa [hc]
    rw [hc]
    exact ih.insert ha0 ⟨rfl, le_refl _, by decide, fun j h3 hj => absurd hj (not_lt.mpr h3)⟩ rfl
  | alloc t file flags _ ih =>
    rw [fdAlloc]
    split_ifs with h0
    · exact ih
    split
    · next i hi =>
      exact ih.upd fun T ht hT =>
        hT.taken (freeSlot_some hT (get_of_lookup ht ▸ hi)) fun hf => h0 (.inr hf)
    refine ih.upd fun T _ hT => ⟨hT.maxFds, le_max_right .., max_le hT.most (by decide), ?_⟩
    rw [max_eq_left hT.least]
    exact hT.full
  | free t fd _ ih => exact ih.upd fun T _ hT => hT.freed fd
  | @clone s t a _ ht ih =>
    obtain ⟨T, hT⟩ := mem_iff.mp ht
    have hcopy : s.fdTableClone t a = s.copyFiles t 0 a := by
      rw [copyFiles, if_neg (ih t T hT).1]
      rfl
    obtain hc | ⟨_, hc⟩ | ⟨ha0, _, hc⟩ := copyFiles_cases t 0 a s
    · rwa [hcopy, hc]
    · rw [hcopy, hc]
      exact ih.upd fun _ _ hT => ⟨hT.maxFds, hT.least, hT.most, hT.full⟩
    rw [hcopy, hc, get_of_lookup hT]
    exact ih.insert ha0 (ih t T hT).2.copied (cloned_tables T a s)
  | dup2 t oldfd newfd _ ih => exact ih.dup2 oldfd newfd

/-- **Descriptors are given out lowest first**, in every table of every run. -/
theorem fdAlloc_lowest (h : Reach s) (ht : s.tables.lookup t = some T) {file : ℕ} (hf : file ≠ 0)
    (flags : ℕ) : (∀ i, 3 ≤ i → i < T.nextFd → (T.fds i).file ≠ 0) ∧
      let r := (s.fdAlloc t file flags).1
      (∀ i : ℕ, r = i ↔ IsLeast (FreeFds T) i) ∧ (r = eMfile ↔ FreeFds T = ∅) := by
  obtain ⟨ht0, hT⟩ := h.allOk t T ht
  refine ⟨hT.full, ?_⟩
  rw [fdAlloc, if_neg (not_or.mpr ⟨ht0, hf⟩), get_of_lookup ht]
  cases hi : T.freeSlot with
  | none =>
    have hnone := freeSlot_none hT hi
    refine ⟨fun i => iff_of_false (fun h => ?_) fun h => ?_, iff_of_true rfl hnone⟩
    · exact absurd h (by simp only [eMfile]; omega)
    · exact Set.notMem_empty i (hnone ▸ h.1)
  | some j =>
    have hj := freeSlot_some hT hi
    refine ⟨fun i => ⟨fun h => Int.ofNat.inj h ▸ hj, fun h => congrArg _ (hj.unique h)⟩,
      iff_of_false (fun h => ?_) fun h => Set.notMem_empty j (h ▸ hj.1)⟩
    exact absurd h (by simp only [eMfile]; omega)

/-- Descriptors 3 and 4 are given out, 3 is freed and 4 is copied to 5; then the table is cloned and a
descriptor of the clone is given out. -/
def cloned : Files :=
  let s := (Files.fdTableCreate 1 ⟨∅, Finmap.insert 10 1 (Finmap.insert 9 1 ∅)⟩).2
  let s := ((s.fdAlloc 1 9 0).2.fdAlloc 1 10 0).2.upd 1 (·.fdFree 3)
  let s := ((s.sysDup2 1 4 5).2.fdTableClone 1 2).2
  (s.fdAlloc 2 9 0).2

theorem fdAlloc_lowest_cloned : IsLeast (FreeFds (cloned.get 2)) 6 := by
  obtain ⟨T, hT⟩ : ∃ T, cloned.tables.lookup 2 = some T := Option.isSome_iff_exists.mp (by decide +kernel)
  have hreach : Reach cloned := .alloc 2 9 0 (.clone 1 2 (.dup2 1 4 5 (.free 1 3
    (.alloc 1 10 0 (.alloc 1 9 0 (.create 1 (.start _)))))) (by decide +kernel))
  rw [get_of_lookup hT]
  exact ((fdAlloc_lowest hreach hT (by decide : 9 ≠ 0) 0).2.1 6).mp (by decide +kernel)

end Obelisk.Lowest
