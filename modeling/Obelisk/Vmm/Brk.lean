import Obelisk.Paging.Count
import Obelisk.Vmm.Owned

/-!
# Growing the heap

`vmm_brk` maps the new pages one after another and stops at the first that fails.
-/

namespace Obelisk

open KLib Relation Finset FramePool CountedPool

lemma lowPage_index {a : ℕ} (h : a < userSpaceEnd) : pml4Index a < 256 := by
  rw [pml4Index, tableIndex_eq]
  simp only [userSpaceEnd] at h
  omega

section Grow

variable {P : Type} [FramePool P] {root n addr : ℕ} {m m' : Machine P}

/-- How a page of the heap can fail. -/
inductive GrowFail (root addr : ℕ) (m : Machine P) : Machine P → Prop
  | mapped : mmuResolve root addr m ≠ 0 → GrowFail root addr m m
  | noFrame : (allocPage m.pool).1 = 0 → GrowFail root addr m m.afterAlloc
  | mapFail {phys : ℕ} {r : ℤ} {m₁ : Machine P} : (allocPage m.pool).1 = phys → phys ≠ 0 →
      mmuMap root addr phys (vmmProtToPteFlags protWrite) m.afterAlloc = (r, m₁) → r ≠ 0 →
      GrowFail root addr m { m₁ with pool := freePage phys m₁.pool }

def GrowPage (root addr : ℕ) (m m' : Machine P) : Prop :=
  ∃ phys m₁, (allocPage m.pool).1 = phys ∧ phys ≠ 0 ∧
    mmuMap root addr phys (vmmProtToPteFlags protWrite) m.afterAlloc = (0, m₁) ∧
    m' = m₁.fill (physToPfn phys) fun _ => 0#64

lemma growHeap_succ {b : Bool} (h : growHeap root (n + 1) addr m = (b, m')) :
    (b = false ∧ GrowFail root addr m m') ∨
    ∃ m1, GrowPage root addr m m1 ∧ growHeap root n (addr + pageSize) m1 = (b, m') := by
  rcases hm : mmuMap root addr (allocPage m.pool).1 (vmmProtToPteFlags protWrite) m.afterAlloc with ⟨r, m1⟩
  rw [growHeap, growFlags_eq] at h
  dsimp only at h
  rw [show ({ m with pool := (allocPage m.pool).2 } : Machine P) = m.afterAlloc from rfl, hm] at h
  dsimp only at h
  split_ifs at h with hres h0 hr
  · cases h
    exact .inl ⟨rfl, .mapped hres⟩
  · cases h
    exact .inl ⟨rfl, .noFrame h0⟩
  · cases h
    exact .inl ⟨rfl, .mapFail rfl h0 hm hr⟩
  rw [not_not] at hr
  subst hr
  exact .inr ⟨_, ⟨_, m1, rfl, h0, hm, rfl⟩, h⟩

variable {K D A : ℕ → Prop} {L : Set Loc}

lemma take_plain (h : Owns root K D L m) {phys : ℕ} (hphys : (allocPage m.pool).1 = phys)
    (h0 : phys ≠ 0) : ∃ g, phys = g * 4096 ∧ g < 2 ^ 40 ∧ OwnSteps root K A (m, L) (m.afterAlloc, L) ∧
      Loose root K L m.afterAlloc g := by
  obtain ⟨g, rfl, hlt, hsteps, hloose⟩ :=
    take_frame (A := A) h hphys h0 (m.mem (physToPfn phys))
  rw [physToPfn_frame, show m.mem g = m.afterAlloc.mem g from rfl, Machine.fill_self] at hsteps hloose
  exact ⟨g, rfl, hlt, hsteps, hloose⟩

lemma GrowFail.ownSteps (hf : GrowFail root addr m m') (h : Owns root K D L m)
    (ha : addr % pageSize = 0) (hlt : addr < 2 ^ 64) : OwnSteps root K A (m, L) (m', L) := by
  cases hf with
  | mapped => exact .refl
  | noFrame => exact .single (.pool rfl fun f => allocPage_mono)
  | mapFail hphys h0 hr hne =>
    obtain ⟨g, rfl, hg40, hsteps, hloose⟩ := take_plain (A := A) h hphys h0
    rcases map_frame (A := A) (hsteps.owns h) hloose hg40 (by omega) ha hlt (protFlags_frame _) hr with
      ⟨-, hsteps', hloose'⟩ | ⟨h0', -⟩
    · refine (hsteps.trans hsteps').tail (.free hloose' rfl fun f hf => ?_)
      exact (freePage_mono hf).imp_right fun e => by omega
    · exact absurd h0' hne

lemma GrowPage.entries (hp : GrowPage root addr m m') (h : Owns root K D L m)
    (ha : addr % pageSize = 0) (hlt : addr < 2 ^ 64) :
    entryAt m.mem root addr = none ∧
    (∀ v, entryAt m.mem root v ≠ none → entryAt m'.mem root v ≠ none) ∧
    ∃ l, walkLoc m'.mem root addr = some l ∧ (A addr → OwnSteps root K A (m, L) (m', insert l L)) := by
  obtain ⟨phys, m1, hphys, h0, hr, rfl⟩ := hp
  obtain ⟨g, rfl, hg40, hsteps, hloose⟩ := take_plain (A := A) h hphys h0
  have hown : Owns root K D L m.afterAlloc := hsteps.owns h
  rw [physToPfn_frame]
  obtain ⟨hne, -⟩ | ⟨-, l', hl', hsteps', hnt⟩ :=
    map_frame (A := A) hown hloose hg40 (by omega) ha hlt (protFlags_frame _) hr
  · exact absurd rfl hne
  have hres := mmuMap_result addr (g * 4096) (vmmProtToPteFlags protWrite) hown.used
  rw [hr, alignDown_of_aligned ha hlt] at hres
  generalize hw : pteMake (alignDown (g * 4096) pageSize) (vmmProtToPteFlags protWrite ||| ptePresent) = w at hres
  have hpres : pteIsPresent w = true := hw ▸ pteIsPresent_make _ _
  cases hres with
  | @ok m2 l hx hl habs =>
    have hown2 : Owns root K D L m2 := (Extends.ownSteps (A := A) hx).owns hown
    have hold : ∀ v, entryAt m2.mem root v = entryAt m.mem root v :=
      hx.entryAt_eq hown.used hown.level
    refine ⟨?_, fun v hv => ?_, l', ?_, fun hA => ?_⟩
    · rw [← hold, entryAt, hl]
      simp [habs]
    · show entryAt (Function.update (m2.mem.write l w) g fun _ => 0#64) root v ≠ none
      rw [entryAt_fill hnt, entryAt_write hown2.level (lastLevel_of_absent hown2.huge hl habs),
        hpres, if_pos rfl, hold]
      split_ifs
      · exact Option.some_ne_none w
      · exact hv
    · exact (walkLoc_fill hnt _ addr).trans hl'
    · exact (hsteps.trans (hsteps' hA)).tail (.fill _ hnt hloose.pinned rfl rfl)

end Grow

def pagesFrom (start n : ℕ) : Finset (List ℕ) :=
  (range n).biUnion fun i => tablePaths (start + i * pageSize)

def framesNeeded (mem : PhysMem) (root start n : ℕ) : ℕ :=
  n + (missing mem root (pagesFrom start n)).card

lemma pagesFrom_succ (start n : ℕ) :
    pagesFrom start (n + 1) = tablePaths start ∪ pagesFrom (start + pageSize) n := by
  ext p
  simp only [pagesFrom, mem_biUnion, mem_range, mem_union]
  constructor
  · rintro ⟨i, hi, hp⟩
    cases i with
    | zero => exact .inl (by simpa using hp)
    | succ i => exact .inr ⟨i, by omega, by rwa [add_mul, one_mul, add_comm (i * pageSize),
        ← add_assoc] at hp⟩
  rintro (hp | ⟨i, hi, hp⟩)
  · exact ⟨0, by omega, by simpa using hp⟩
  exact ⟨i + 1, by omega, by rwa [add_mul, one_mul, add_comm (i * pageSize), ← add_assoc]⟩

lemma oneUpper_pagesFrom {start n : ℕ}
    (h : ∀ i, i + 1 < n → pml4Index (start + i * pageSize) < 256) : OneUpper (pagesFrom start n) := by
  refine ⟨fun p hp => ?_, start + (n - 1) * pageSize, fun p hp hk => ?_⟩
  · obtain ⟨i, -, hp⟩ := mem_biUnion.mp hp
    exact isPath_initial (initial_of_mem hp)
  obtain ⟨i, hi, hp⟩ := mem_biUnion.mp hp
  rw [mem_range] at hi
  have hin := initial_of_mem hp
  by_cases hlast : i + 1 < n
  · obtain ⟨j, hj, h256⟩ := hk
    have hlt := h i hlast
    obtain ⟨q, hq⟩ := hin
    cases p with
    | nil => cases hj
    | cons j' p =>
      cases hj
      have : j = pml4Index (start + i * pageSize) := (List.cons.inj hq).1
      omega
  · rwa [show i = n - 1 by omega] at hin

lemma missing_union (mem : PhysMem) (root : ℕ) (S T : Finset (List ℕ)) :
    missing mem root (S ∪ T) = missing mem root S ∪ missing mem root T := filter_union _ _ _

section Count

variable {P : Type} [CountedPool P] {root n addr : ℕ} {K D : ℕ → Prop} {L : Set Loc} {m m' : Machine P}

lemma GrowPage.count (hp : GrowPage root addr m m') (h : Owns root K D L m) (hK : K 0)
    (ha : addr % pageSize = 0) (hlt : addr < 2 ^ 64)
    (hup : ∀ i, i < n → pml4Index (addr + i * pageSize) < 256) :
    count m'.pool + framesNeeded m.mem root addr (n + 1) =
      count m.pool + framesNeeded m'.mem root (addr + pageSize) n := by
  obtain ⟨phys, m1, hphys, h0, hr, rfl⟩ := hp
  obtain ⟨g, rfl, hg40, hsteps, hloose⟩ := take_plain (A := fun _ => True) h hphys h0
  have hown : Owns root K D L m.afterAlloc := hsteps.owns h
  obtain ⟨hne, -⟩ | ⟨-, l, -, -, hnt⟩ :=
    map_frame (A := fun _ => True) hown hloose hg40 (by omega) ha hlt (protFlags_frame _) hr
  · exact absurd rfl hne
  have hS : OneUpper (pagesFrom addr (n + 1)) := oneUpper_pagesFrom fun i hi => hup i (by omega)
  have hsub : tablePaths (alignDown addr pageSize) ⊆ pagesFrom addr (n + 1) := by
    rw [alignDown_of_aligned ha hlt, pagesFrom_succ]
    exact subset_union_left
  obtain ⟨hcount, hmiss⟩ := mmuMap_count hown hK hS hsub hr
  have hone : count m.afterAlloc.pool + 1 = count m.pool :=
    allocPage_count (hphys ▸ h0)
  -- clearing the frame touches no table
  have hfill : missing (m1.fill (physToPfn (g * 4096)) fun _ => 0#64).mem root
      (pagesFrom (addr + pageSize) n) = missing m1.mem root (pagesFrom (addr + pageSize) n) := by
    rw [physToPfn_frame]
    refine filter_congr fun p hp => ?_
    have hpath : IsPath p := hS.1 p (by rw [pagesFrom_succ]; exact mem_union_right _ hp)
    rw [show (m1.fill g fun _ => 0#64).mem = Function.update m1.mem g fun _ => 0#64 from rfl,
      tableAt_fill hnt _ hpath]
  rw [pagesFrom_succ, missing_union m1.mem, ← alignDown_of_aligned ha hlt, hmiss, empty_union,
    alignDown_of_aligned ha hlt, ← pagesFrom_succ] at hcount
  rw [framesNeeded, framesNeeded, hfill]
  show count m1.pool + _ = _
  have hmem : missing m.afterAlloc.mem root (pagesFrom addr (n + 1)) =
    missing m.mem root (pagesFrom addr (n + 1)) := rfl
  rw [hmem] at hcount
  omega

/-- The loop cannot reach its first page in the upper half: a page on the way is mapped, or there
are not enough frames. -/
def StopsBelow (root addr n : ℕ) (m : Machine P) : Prop :=
  ∀ k < n, 256 ≤ pml4Index (addr + k * pageSize) → (∀ j < k, pml4Index (addr + j * pageSize) < 256) →
    (∃ j ≤ k, entryAt m.mem root (addr + j * pageSize) ≠ none) ∨ count m.pool < framesNeeded m.mem root addr (k + 1)

/-- **Growing the heap keeps the upper half** unless it reaches it. -/
theorem growHeap_upper {b : Bool} (h : Owns root K D L m) (hK : K 0) (ha : addr % pageSize = 0)
    (hlt : addr + n * pageSize ≤ 2 ^ 64) (hs : StopsBelow root addr n m)
    (hr : growHeap root n addr m = (b, m')) :
    ∃ L', OwnSteps root K (fun a => pml4Index a < 256) (m, L) (m', L') := by
  induction n generalizing addr m L with
  | zero =>
    cases hr
    exact ⟨L, .refl⟩
  | succ n ih =>
    have hlt' := lt_of_pages hlt
    rcases growHeap_succ hr with ⟨-, hfail⟩ | ⟨m1, hpage, hrest⟩
    · exact ⟨L, hfail.ownSteps h ha hlt'⟩
    obtain ⟨hnone, hmono, l, -, hsteps⟩ :=
      hpage.entries (A := fun a => pml4Index a < 256) h ha hlt'
    have huser : pml4Index addr < 256 := by
      by_contra hk
      rcases hs 0 (by omega) (by simpa using hk) (by omega) with ⟨j, hj, hmap⟩ | hfew
      · rw [Nat.le_zero.mp hj, zero_mul, add_zero] at hmap
        exact hmap hnone
      have hcost := hpage.count (n := 0) h hK ha hlt' (by omega)
      rw [show framesNeeded m1.mem root (addr + pageSize) 0 = 0 from rfl] at hcost
      omega
    have hown : Owns root K D (insert l L) m1 := (hsteps huser).owns h
    have hshift : ∀ j, addr + pageSize + j * pageSize = addr + (j + 1) * pageSize := fun j => by
      rw [add_mul, one_mul]; omega
    have hstop : StopsBelow root (addr + pageSize) n m1 := by
      intro k hk hup hbelow
      rw [hshift] at hup
      have hbelow' : ∀ j < k + 1, pml4Index (addr + j * pageSize) < 256 := fun j hj => by
        cases j with
        | zero => simpa using huser
        | succ j => rw [← hshift]; exact hbelow j (by omega)
      rcases hs (k + 1) (by omega) hup hbelow' with ⟨j, hj, hmap⟩ | hfew
      · cases j with
        | zero =>
          rw [zero_mul, add_zero] at hmap
          exact absurd hnone hmap
        | succ j => exact .inl ⟨j, by omega, by rw [hshift]; exact hmono _ hmap⟩
      have hcost := hpage.count (n := k + 1) h hK ha hlt' hbelow'
      exact .inr (by omega)
    obtain ⟨L2, hsteps2⟩ := ih hown (by rwa [Nat.add_mod_right]) (by rwa [hshift]) hstop hrest
    exact ⟨L2, (hsteps huser).trans hsteps2⟩

end Count

end Obelisk
