import Obelisk.Paging.Owned

/-!
# How many frames a walk needs

A creating walk takes one frame for each table that is missing on its way, and fails only when the
allocator is empty.
-/

namespace Obelisk

open KLib Finset Option CountedPool

variable {q : List ℕ} {mem : PhysMem} {phys : ℕ} {flags : BitVec 64}
variable {virt : ℕ} {p : List ℕ}

def tablePaths (virt : ℕ) : Finset (List ℕ) :=
  {[pml4Index virt], [pml4Index virt, pdptIndex virt], pathOf virt}

def missing (mem : PhysMem) (root : ℕ) (S : Finset (List ℕ)) : Finset (List ℕ) :=
  S.filter fun p => tableAt mem root p = none

def OneUpper (S : Finset (List ℕ)) : Prop :=
  (∀ p ∈ S, IsPath p) ∧ ∃ v, ∀ p ∈ S, KernelPath p → p <+: pathOf v

lemma mem_tablePaths {i : ℕ} (h : p ++ [i] <+: pathOf virt) : p ++ [i] ∈ tablePaths virt := by
  have hp := List.prefix_iff_eq_take.mp h
  have hlen := h.length_le
  rw [List.length_append, List.length_singleton, show (pathOf virt).length = 3 from rfl] at hlen
  rw [List.length_append, List.length_singleton] at hp
  have hcases : p.length = 0 ∨ p.length = 1 ∨ p.length = 2 := by omega
  rw [hp]
  rcases hcases with h0 | h1 | h2
  · rw [h0]; simp [tablePaths, pathOf]
  · rw [h1]; simp [tablePaths, pathOf]
  · rw [h2]; simp [tablePaths, pathOf]

lemma initial_of_mem (h : p ∈ tablePaths virt) : p <+: pathOf virt := by
  simp only [tablePaths, mem_insert, mem_singleton] at h
  rcases h with rfl | rfl | rfl
  · exact ⟨_, rfl⟩
  · exact ⟨_, rfl⟩
  · exact List.prefix_rfl

lemma initial_eq {v : ℕ} (hp : p <+: pathOf v) (hq : q <+: pathOf v)
    (hlen : p.length = q.length) : p = q := by
  rw [List.prefix_iff_eq_take.mp hp, List.prefix_iff_eq_take.mp hq, hlen]

lemma tableAt_initial {root f : ℕ}
    (h : tableAt mem root (p ++ q) = some f) : tableAt mem root p ≠ none := by
  induction q using List.reverseRecOn generalizing f with
  | nil =>
    rw [List.append_nil] at h
    rw [h]
    exact some_ne_none f
  | append_singleton q i ih =>
    rw [← List.append_assoc, tableAt_append_some] at h
    obtain ⟨g, hg, -⟩ := h
    exact ih hg

lemma oneUpper_tablePaths (virt : ℕ) : OneUpper (tablePaths virt) :=
  ⟨fun _ hp => isPath_initial (initial_of_mem hp), virt, fun _ hp _ => initial_of_mem hp⟩

section Table

variable {P : Type} [FramePool P] {root f i g : ℕ} {p : List ℕ} {S : Finset (List ℕ)} {m m' : Machine P}

lemma NewTable.missing_eq (hn : NewTable root p f i g m m') (hu : TablesUsed root m)
    (hl : LevelSep root m.mem) (hh : Sep HalfSep root m.mem) (hS : OneUpper S)
    (hp : p ++ [i] ∈ S) :
    p ++ [i] ∈ missing m.mem root S ∧
      missing m'.mem root S = (missing m.mem root S).erase (p ++ [i]) := by
  obtain ⟨hpath, v, hv⟩ := hS
  have habs : tableAt m.mem root (p ++ [i]) = none := by
    rw [tableAt_append, hn.table, bind_some, nextTable, hn.absent]
    rfl
  refine ⟨mem_filter.mpr ⟨hp, habs⟩, ?_⟩
  ext q
  rw [mem_erase, missing, mem_filter, missing, mem_filter]
  constructor
  · rintro ⟨hq, hnone⟩
    refine ⟨?_, hq, ?_⟩
    · rintro rfl
      rw [hn.tableAt_self hu] at hnone
      cases hnone
    by_contra hsome
    obtain ⟨t, ht⟩ := ne_none_iff_exists'.mp hsome
    rw [hn.tableAt_mono hu (hpath q hq) ht] at hnone
    cases hnone
  rintro ⟨hne, hq, hnone⟩
  refine ⟨hq, ?_⟩
  by_contra hsome
  obtain ⟨t, ht⟩ := ne_none_iff_exists'.mp hsome
  rcases hn.tableAt_cases hu (hpath q hq) ht with hold | ⟨-, q', rfl, hq'⟩
  · rw [hold] at hnone
    cases hnone
  -- two paths to the table that got the entry: they are equal, or both in the upper half
  refine hne ?_
  rcases hh q' p f (hpath _ hq).left hn.isPath.left hq' hn.table with rfl | ⟨k1, k2⟩
  · rfl
  refine initial_eq (hv _ hq (k1.append _)) (hv _ hp (k2.append _)) ?_
  simp [hl q' p f (hpath _ hq).left hn.isPath.left hq' hn.table]

end Table

section Count

variable {P : Type} [CountedPool P] {root virt : ℕ} {K D : ℕ → Prop} {L : Set Loc}
  {S : Finset (List ℕ)} {m m' : Machine P}

lemma Extends.count_missing (hx : Extends root virt m m') (h : Owns root K D L m) (hK : K 0)
    (hS : OneUpper S) (hv : tablePaths virt ⊆ S) :
    count m'.pool + (missing m.mem root S).card = count m.pool + (missing m'.mem root S).card := by
  induction hx with
  | refl => rfl
  | noFrame hx hz ih =>
    have hown := (Extends.ownSteps (A := fun _ => False) hx).owns h
    rw [(allocPage_empty (hown.pinned_used 0 hK) hz).2]
    exact ih
  | table hx hp hn ih =>
    have hown := (Extends.ownSteps (A := fun _ => False) hx).owns h
    obtain ⟨hmem, he⟩ := hn.missing_eq hown.used hown.level hown.half hS (hv (mem_tablePaths hp))
    have hcount := allocPage_count hn.ne_zero
    have hcard := card_erase_add_one hmem
    rw [he, hn.pool]
    omega

lemma missing_tablePaths_of_walk {l : Loc} (hl : walkLoc mem root virt = some l)
    (hs : LevelSep root mem) (hlast : LastLevel root mem l) :
    missing mem root (tablePaths virt) = ∅ := by
  have ht := (walkLoc_lastLevel hs hlast hl).1
  rw [missing, filter_eq_empty_iff]
  intro p hp hnone
  obtain ⟨q, hq⟩ := initial_of_mem hp
  rw [← hq] at ht
  exact tableAt_initial ht hnone

lemma mmuMap_count (h : Owns root K D L m) (hK : K 0)
    (hS : OneUpper S) (hv : tablePaths (alignDown virt pageSize) ⊆ S)
    (hr : mmuMap root virt phys flags m = (0, m')) :
    count m'.pool + (missing m.mem root S).card = count m.pool + (missing m'.mem root S).card ∧
      missing m'.mem root (tablePaths (alignDown virt pageSize)) = ∅ := by
  have hres := mmuMap_result virt phys flags h.used
  rw [hr] at hres
  generalize hw : pteMake (alignDown phys pageSize) (flags ||| ptePresent) = w at hres
  cases hres with
  | @ok m1 l hx hl habs =>
    have hown := (Extends.ownSteps (A := fun _ => False) hx).owns h
    have hlast := lastLevel_of_absent hown.huge hl habs
    have htab : ∀ T : Finset (List ℕ), (∀ p ∈ T, IsPath p) →
        missing (m1.mem.write l w) root T = missing m1.mem root T := fun T hT =>
      filter_congr fun p hp => by rw [tableAt_write hown.level hlast w (hT p hp)]
    rw [htab S hS.1, htab _ (oneUpper_tablePaths _).1]
    exact ⟨hx.count_missing h hK hS hv, missing_tablePaths_of_walk hl hown.level hlast⟩

lemma mmuMap_ok (h : Owns root K D L m) (hK : K 0) (hnone : entryAt m.mem root (alignDown virt pageSize) = none)
    (hcount : (missing m.mem root (tablePaths (alignDown virt pageSize))).card ≤
      count m.pool) : (mmuMap root virt phys flags m).1 = 0 := by
  have hres := mmuMap_result virt phys flags h.used
  generalize mmuMap root virt phys flags m = r at hres ⊢
  obtain ⟨ret, m'⟩ := r
  dsimp only at hres ⊢
  cases hres with
  | @noMem m1 hx hw hz =>
    have hown : Owns root K D L m1 := (Extends.ownSteps (A := fun _ => False) hx).owns h
    have hzero := (allocPage_empty (hown.pinned_used 0 hK) hz).1
    have hc := hx.count_missing h hK (oneUpper_tablePaths _) (Subset.refl _)
    have hpos : 0 < (missing m1.mem root (tablePaths (alignDown virt pageSize))).card := by
      refine card_pos.mpr ⟨pathOf (alignDown virt pageSize), mem_filter.mpr ⟨?_, ?_⟩⟩
      · simp [tablePaths]
      by_contra hsome
      obtain ⟨t, ht⟩ := ne_none_iff_exists'.mp hsome
      rw [walkLoc_of_tableAt ht] at hw
      cases hw
    omega
  | exist hx he =>
    rw [hx.entryAt_eq h.used h.level, hnone] at he
    cases he
  | ok => rfl

end Count

end Obelisk
