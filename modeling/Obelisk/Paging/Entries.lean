import Obelisk.Paging.Tables

/-!
# Entries and the page-table interface

`entryAt` is the present entry that translates an address.
-/

namespace Obelisk

open KLib List FramePool Option

variable {f g i root v virt w : ℕ} {l : Loc} {p q : List ℕ} {mem : PhysMem}
variable {R : List ℕ → List ℕ → Prop}

def PresentAt (mem : PhysMem) (root virt : ℕ) (l : Loc) : Prop :=
  walkLoc mem root virt = some l ∧ pteIsPresent (mem.read l) = true

def entryAt (mem : PhysMem) (root virt : ℕ) : Option (BitVec 64) :=
  (walkLoc mem root virt).bind fun l => if pteIsPresent (mem.read l) then some (mem.read l) else none

lemma entryAt_some {e : BitVec 64} :
    entryAt mem root virt = some e ↔ ∃ l, PresentAt mem root virt l ∧ mem.read l = e := by
  rw [entryAt, bind_eq_some_iff]
  constructor
  · rintro ⟨l, hl, he⟩
    split_ifs at he with hp
    cases he
    exact ⟨l, ⟨hl, hp⟩, rfl⟩
  rintro ⟨l, ⟨hl, hp⟩, rfl⟩
  exact ⟨l, hl, by rw [if_pos hp]⟩

lemma walkLoc_table
    (h : walkLoc mem root virt = some l) : ∃ p, IsPath p ∧ tableAt mem root p = some l.1 := by
  rcases walkFrom_cases h with ⟨p, hp, -, ht, -⟩ | ⟨ht, -⟩
  · exact ⟨p, (isPath_initial hp).left, ht⟩
  · exact ⟨_, isPath_pathOf virt, ht⟩

lemma walkLoc_congr {mem' : PhysMem} (h : ∀ p f i, p ++ [i] <+: pathOf virt →
    tableAt mem root p = some f → mem' f i = mem f i) :
    walkLoc mem' root virt = walkLoc mem root virt := by
  have key : ∀ p q : List ℕ, p ++ q = pathOf virt → ∀ f, tableAt mem root p = some f →
      walkFrom mem' p.isEmpty f q (ptIndex virt) = walkFrom mem p.isEmpty f q (ptIndex virt) := by
    intro p q
    induction q generalizing p with
    | nil => intro _ f _; rfl
    | cons i q ih =>
      intro hpq f hf
      have hpre : p ++ [i] <+: pathOf virt := ⟨q, by rw [← hpq]; simp⟩
      rw [walkFrom, walkFrom, h p f i hpre hf]
      split_ifs
      · rfl
      cases hn : nextTable p.isEmpty (mem f i) with
      | none => rfl
      | some g =>
        have := ih (p ++ [i]) (by rw [← hpq]; simp) g (tableAt_append_some.mpr ⟨f, hf, hn⟩)
        rwa [isEmpty_eq_false_iff.mpr (by simp)] at this
  exact key [] (pathOf virt) rfl root rfl

lemma tableIndex_page {shift : ℕ} (hs : 12 ≤ shift) (h : v / 4096 = w / 4096) :
    tableIndex shift v = tableIndex shift w := by
  have key : ∀ x, x / 2 ^ shift = x / 4096 / 2 ^ (shift - 12) := fun x => by
    rw [Nat.div_div_eq_div_mul, show (4096 : ℕ) = 2 ^ 12 by norm_num, ← pow_add, Nat.add_sub_cancel' hs]
  rw [tableIndex_eq, tableIndex_eq, key, key, h]

lemma walkLoc_page (h : v / 4096 = w / 4096) (mem : PhysMem) (root : ℕ) :
    walkLoc mem root v = walkLoc mem root w := by
  unfold walkLoc pathOf pml4Index pdptIndex pdIndex ptIndex
  rw [tableIndex_page (by norm_num) h, tableIndex_page (by norm_num) h,
    tableIndex_page (by norm_num) h, tableIndex_page (by norm_num) h]

lemma entryAt_page (h : v / 4096 = w / 4096) (mem : PhysMem) (root : ℕ) :
    entryAt mem root v = entryAt mem root w := by
  rw [entryAt, entryAt, walkLoc_page h]

lemma alignDown_page (h : v < 2 ^ 64) : alignDown v pageSize / 4096 = v / 4096 := by
  rw [show pageSize = 2 ^ 12 by rfl, alignDown_two_pow h (by norm_num)]
  omega

lemma page_eq_of_indices (hv : v < 2 ^ 48) (hw : w < 2 ^ 48)
    (hp : pathOf v = pathOf w) (hi : ptIndex v = ptIndex w) : v / 4096 = w / 4096 := by
  simp only [pathOf, pml4Index, pdptIndex, pdIndex, ptIndex, List.cons.injEq, and_true, tableIndex_eq] at hp hi
  omega

def Sep (R : List ℕ → List ℕ → Prop) (root : ℕ) (mem : PhysMem) : Prop :=
  ∀ p q f, IsPath p → IsPath q → tableAt mem root p = some f → tableAt mem root q = some f → R p q

def LevelSep : ℕ → PhysMem → Prop := Sep fun p q => p.length = q.length

variable {P : Type} [FramePool P]
variable {m m' : Machine P}

lemma NewTable.sep (h : NewTable root p f i g m m') (hu : TablesUsed root m)
    (hR : ∀ p q i, R p q → R (p ++ [i]) (q ++ [i])) (hs : Sep R root m.mem) :
    Sep R root m'.mem := by
  intro q1 q2 t h1 h2 ht1 ht2
  rcases h.tableAt_cases hu h1 ht1 with o1 | ⟨rfl, p1, rfl, o1⟩
  · rcases h.tableAt_cases hu h2 ht2 with o2 | ⟨rfl, p2, rfl, o2⟩
    · exact hs _ _ _ h1 h2 o1 o2
    · exact absurd rfl (h.ne_of_table hu h1 o1)
  rcases h.tableAt_cases hu h2 ht2 with o2 | ⟨-, p2, rfl, o2⟩
  · exact absurd rfl (h.ne_of_table hu h2 o2)
  · exact hR _ _ _ (hs _ _ _ h1.left h2.left o1 o2)

lemma Extends.sep (h : Extends root virt m m') (hu : TablesUsed root m)
    (hR : ∀ p q i, R p q → R (p ++ [i]) (q ++ [i])) (hs : Sep R root m.mem) :
    Sep R root m'.mem := by
  induction h with
  | refl => exact hs
  | noFrame _ _ ih => exact ih
  | table hx _ hn ih => exact hn.sep (hx.tablesUsed hu) hR ih

lemma Extends.levelSep (h : Extends root virt m m')
    (hu : TablesUsed root m) (hs : LevelSep root m.mem) : LevelSep root m'.mem :=
  h.sep hu (fun p q i e => by simp [e]) hs

section

variable (h : NewTable root p f i g m m')
include h

lemma NewTable.read_of_present
    (hu : TablesUsed root m) (hq : IsPath q)
    (ht : tableAt m.mem root q = some l.1) (hp : pteIsPresent (m.mem.read l) = true) :
    m'.mem.read l = m.mem.read l := by
  refine h.mem_of_ne hu hq ht fun he => ?_
  rw [show l = (f, i) from he] at hp
  rw [show m.mem.read (f, i) = m.mem f i from rfl, h.absent] at hp
  cases hp

lemma NewTable.presentAt_mono
    (hu : TablesUsed root m) (hl : PresentAt m.mem root virt l) :
    PresentAt m'.mem root virt l ∧ m'.mem.read l = m.mem.read l := by
  obtain ⟨hl, hp⟩ := hl
  rcases walkFrom_cases hl with ⟨q, hq, hne, ht, hh⟩ | ⟨ht, hj⟩
  · have hpath := (isPath_initial hq).left
    have hread := h.read_of_present hu hpath ht hp
    refine ⟨⟨walkLoc_of_huge ?_ hq (h.tableAt_mono hu hpath ht) ?_, hread ▸ hp⟩, hread⟩
    · rintro rfl; cases hne
    · exact (congrArg pteIsHuge hread).trans hh
  have hpath := isPath_pathOf virt
  have hread := h.read_of_present hu hpath ht hp
  refine ⟨⟨?_, hread ▸ hp⟩, hread⟩
  rw [walkLoc_of_tableAt (h.tableAt_mono hu hpath ht), ← hj]

lemma NewTable.presentAt_of
    (hu : TablesUsed root m) (hs : LevelSep root m.mem)
    (hl : PresentAt m'.mem root virt l) : PresentAt m.mem root virt l := by
  obtain ⟨hl, hp⟩ := hl
  rcases walkFrom_cases hl with ⟨q, hq, hne, ht, hh⟩ | ⟨ht, hj⟩
  · have hpath := (isPath_initial hq).left
    rcases h.tableAt_cases hu hpath ht with hold | ⟨hg, -⟩
    · have hlf : (l.1, l.2) ≠ (f, i) := fun e => by
        have hent := (nextTable_some.mp (h.next_self false)).2.1
        simp only [Bool.false_eq_true, false_or] at hent
        rw [Prod.mk.injEq] at e
        rw [e.1, e.2, hent] at hh
        cases hh
      have hread : m'.mem.read l = m.mem.read l := h.mem_of_ne hu hpath hold hlf
      refine ⟨walkLoc_of_huge ?_ hq hold ?_, hread ▸ hp⟩
      · rintro rfl; cases hne
      · exact (congrArg pteIsHuge hread).symm.trans hh
    rw [hg, h.mem_new hu, pteIsHuge_zero] at hh
    cases hh
  have hpath := isPath_pathOf virt
  rcases h.tableAt_cases hu hpath ht with hold | ⟨hg, -⟩
  · have hlf : (l.1, l.2) ≠ (f, i) := fun e => by
      rw [Prod.mk.injEq] at e
      have hlen := hs _ _ _ hpath h.isPath.left hold (e.1 ▸ h.table)
      have := h.isPath.1
      simp only [pathOf, length_append, length_cons, length_nil] at hlen this
      omega
    have hread : m'.mem.read l = m.mem.read l := h.mem_of_ne hu hpath hold hlf
    refine ⟨?_, hread ▸ hp⟩
    rw [walkLoc_of_tableAt hold, ← hj]
  rw [PhysMem.read, hg, h.mem_new hu, pteIsPresent_zero] at hp
  cases hp

lemma NewTable.entryAt_eq
    (hu : TablesUsed root m) (hs : LevelSep root m.mem)
    (virt : ℕ) : entryAt m'.mem root virt = entryAt m.mem root virt := by
  refine Option.ext fun e => ?_
  rw [entryAt_some, entryAt_some]
  constructor
  · rintro ⟨l, hl, he⟩
    have hold := h.presentAt_of hu hs hl
    exact ⟨l, hold, (h.presentAt_mono hu hold).2 ▸ he⟩
  rintro ⟨l, hl, he⟩
  obtain ⟨hnew, hread⟩ := h.presentAt_mono hu hl
  exact ⟨l, hnew, hread.trans he⟩

end

lemma Extends.entryAt_eq (h : Extends root virt m m')
    (hu : TablesUsed root m) (hs : LevelSep root m.mem) (v : ℕ) :
    entryAt m'.mem root v = entryAt m.mem root v := by
  induction h with
  | refl => rfl
  | noFrame _ _ ih => exact ih
  | table hx _ hn ih =>
    rw [hn.entryAt_eq (hx.tablesUsed hu) (hx.levelSep hu hs), ih]

def LastLevel (root : ℕ) (mem : PhysMem) (l : Loc) : Prop :=
  ∃ q, IsPath q ∧ q.length = 3 ∧ tableAt mem root q = some l.1

section Write

variable {root : ℕ} {mem : PhysMem} {l : Loc} (hs : LevelSep root mem) (hl : LastLevel root mem l) (w : BitVec 64)
include hs hl

lemma write_middle (i : ℕ) (hq : IsPath q) (hlen : q.length ≠ 3)
    (ht : tableAt mem root q = some f) : mem.write l w f i = mem f i := by
  refine PhysMem.write_of_ne fun he => ?_
  obtain ⟨p, hp, hp3, hpl⟩ := hl
  exact hlen ((hs _ _ _ hq hp ht (hpl.trans (by rw [← he]))).trans hp3)

lemma tableAt_write (hp : IsPath p) : tableAt (mem.write l w) root p = tableAt mem root p := by
  refine tableAt_congr hp fun q f i hq ht => ?_
  have hlen := hq.1
  rw [length_append, length_singleton] at hlen
  rw [write_middle hs hl w i hq.left (by omega) ht]

lemma walkLoc_write (virt : ℕ) : walkLoc (mem.write l w) root virt = walkLoc mem root virt := by
  refine walkLoc_congr fun p f i hpre hf => ?_
  have hp := isPath_initial hpre
  have hlen := hp.1
  rw [length_append, length_singleton] at hlen
  exact write_middle hs hl w i hp.left (by omega) hf

lemma entryAt_write (virt : ℕ) : entryAt (mem.write l w) root virt =
    if walkLoc mem root virt = some l then (if pteIsPresent w then some w else none)
    else entryAt mem root virt := by
  rw [entryAt, walkLoc_write hs hl]
  split_ifs with hv hw
  · rw [hv]; simp [PhysMem.read, PhysMem.write_self, hw]
  · rw [hv]; simp [PhysMem.read, PhysMem.write_self, hw]
  rw [entryAt]
  cases hx : walkLoc mem root virt with
  | none => rfl
  | some l' =>
    have hne : (l'.1, l'.2) ≠ l := fun he => hv (hx.trans (congrArg some he))
    have hread : (mem.write l w).read l' = mem.read l' := PhysMem.write_of_ne hne
    rw [bind_some, bind_some, hread]

lemma sep_write (h : Sep R root mem) : Sep R root (mem.write l w) := by
  intro p q f hp hq h1 h2
  rw [tableAt_write hs hl w hp] at h1
  rw [tableAt_write hs hl w hq] at h2
  exact h p q f hp hq h1 h2

end Write

lemma TablesUsed.write (hu : TablesUsed root m)
    (hs : LevelSep root m.mem) (hl : LastLevel root m.mem l) (w : BitVec 64) :
    TablesUsed root { m with mem := m.mem.write l w } := by
  intro p f hp hf
  rw [tableAt_write hs hl w hp] at hf
  exact hu p f hp hf

/-- `mmu_map`, with the number of tables it creates. -/
inductive MapBuilds (root virt : ℕ) (w : BitVec 64) (m : Machine P) : ℤ → Machine P → Prop
  | noMem {k : ℕ} {m' : Machine P} : Builds root virt k m m' → walkLoc m'.mem root virt = none →
      (allocPage m'.pool).1 = 0 →
      MapBuilds root virt w m (-eNOMEM) { m' with pool := (allocPage m'.pool).2 }
  | exist {k : ℕ} {m' : Machine P} {e : BitVec 64} : Builds root virt k m m' →
      entryAt m'.mem root virt = some e → MapBuilds root virt w m (-eEXIST) m'
  | ok {k : ℕ} {m' : Machine P} {l : Loc} : Builds root virt k m m' →
      walkLoc m'.mem root virt = some l → pteIsPresent (m'.mem.read l) = false →
      MapBuilds root virt w m 0 { m' with mem := m'.mem.write l w }

lemma mmuMap_builds (virt phys : ℕ) (flags : BitVec 64) (hu : TablesUsed root m) :
    MapBuilds root (alignDown virt pageSize) (pteMake (alignDown phys pageSize) (flags ||| ptePresent))
      m (mmuMap root virt phys flags m).1 (mmuMap root virt phys flags m).2 := by
  unfold mmuMap
  dsimp only
  rcases hr : pagingWalk root (alignDown virt pageSize) true m with ⟨_ | l, m'⟩
  · obtain ⟨m1, k, hb, hw, ⟨hc, -⟩ | ⟨-, hz, rfl⟩⟩ := pagingWalk_builds hu hr
    · cases hc
    · exact .noMem hb hw hz
  obtain ⟨m1, k, hb, hw, ⟨-, rfl⟩ | ⟨hc, -⟩⟩ := pagingWalk_builds hu hr
  swap
  · cases hc
  dsimp only
  split_ifs with hp
  · exact .exist hb (entryAt_some.mpr ⟨l, ⟨hw, hp⟩, rfl⟩)
  · exact .ok hb hw (by simpa using hp)

/-- `mmu_map` creates tables and fails, or writes the entry. -/
inductive MapResult (root virt : ℕ) (w : BitVec 64) (m : Machine P) : ℤ → Machine P → Prop
  | noMem {m' : Machine P} : Extends root virt m m' → walkLoc m'.mem root virt = none → (allocPage m'.pool).1 = 0 →
      MapResult root virt w m (-eNOMEM) { m' with pool := (allocPage m'.pool).2 }
  | exist {m' : Machine P} {e : BitVec 64} : Extends root virt m m' →
      entryAt m'.mem root virt = some e → MapResult root virt w m (-eEXIST) m'
  | ok {m' : Machine P} {l : Loc} : Extends root virt m m' → walkLoc m'.mem root virt = some l →
      pteIsPresent (m'.mem.read l) = false →
      MapResult root virt w m 0 { m' with mem := m'.mem.write l w }

lemma mmuMap_result (virt phys : ℕ) (flags : BitVec 64) (hu : TablesUsed root m) :
    MapResult root (alignDown virt pageSize) (pteMake (alignDown phys pageSize) (flags ||| ptePresent))
      m (mmuMap root virt phys flags m).1 (mmuMap root virt phys flags m).2 := by
  have hres := mmuMap_builds virt phys flags hu
  generalize mmuMap root virt phys flags m = r at hres ⊢
  obtain ⟨ret, m'⟩ := r
  cases hres with
  | noMem hb hw hz => exact .noMem hb.toExtends hw hz
  | exist hb he => exact .exist hb.toExtends he
  | ok hb hw hp => exact .ok hb.toExtends hw hp

lemma mmuUnmap_eq (root virt : ℕ) (m : Machine P) : mmuUnmap root virt m =
    match walkLoc m.mem root (alignDown virt pageSize) with
    | none => (-eNOENT, m)
    | some l => if pteIsPresent (m.mem.read l) then (0, { m with mem := m.mem.write l 0#64 })
      else (-eNOENT, m) := by
  unfold mmuUnmap
  dsimp only
  rw [pagingWalk_false]
  cases walkLoc m.mem root (alignDown virt pageSize) with
  | none => rfl
  | some l => cases hp : pteIsPresent (m.mem.read l) <;> simp [hp]

lemma mmuSetFlags_eq (root virt : ℕ) (flags : BitVec 64) (m : Machine P) :
    mmuSetFlags root virt flags m = match walkLoc m.mem root virt with
    | none => (-eNOENT, m)
    | some l =>
      let w := pteMake (pteGetFrame (m.mem.read l)) (flags ||| ptePresent)
      if pteIsPresent (m.mem.read l) then (0, { m with mem := m.mem.write l w })
      else (-eNOENT, m) := by
  unfold mmuSetFlags
  rw [pagingWalk_false]
  cases walkLoc m.mem root virt with
  | none => rfl
  | some l => cases hp : pteIsPresent (m.mem.read l) <;> simp [hp]

lemma mmuResolve_eq (root virt : ℕ) (m : Machine P) : mmuResolve root virt m = match entryAt m.mem root virt with
    | none => 0
    | some e => pteGetFrame e ||| (virt &&& 0xFFF) := by
  unfold mmuResolve entryAt
  rw [pagingWalk_false]
  cases walkLoc m.mem root virt with
  | none => rfl
  | some l => cases hp : pteIsPresent (m.mem.read l) <;> simp [hp]

end Obelisk
