import Obelisk.Vmm.Destroy

/-!
# Copying pages

The inner loop of `vmm_clone_address_space` reads the parent's page table `src` and maps copies in
the child's page table `c`.

* **`clonePages_state`**: the loop copies every page of its range, or the frames are spent.
-/

namespace Obelisk

open KLib Relation Function Finset Option FramePool CountedPool List

variable {j n phys v : ℕ} {flags : BitVec 64} {mem mem' : PhysMem} {pages : List ℕ} {T : Finset (List ℕ)}
variable {root src : ℕ} {K : ℕ → Prop} {e : BitVec 64}

section Map

variable {P : Type} [FramePool P] {root g a : ℕ} {K D : ℕ → Prop} {L : Set Loc} {m m' : Machine P}

lemma userPage_eq {w : ℕ} (hv : UserPage v) (hw : UserPage w) (h : v / 4096 = w / 4096) :
    v = w := by
  have h1 := hv.1
  have h2 := hw.1
  simp only [pageSize] at h1 h2
  omega

lemma mmuMap_entryAt (h : Owns root K D L m) (ha : UserPage a) (hr : mmuMap root a phys flags m = (0, m')) :
    (∀ v, UserPage v → entryAt m'.mem root v =
      if v = a then some (pteMake (alignDown phys pageSize) (flags ||| ptePresent))
      else entryAt m.mem root v) ∧
    ∀ f, ¬ Free m.pool f → NoTable root m.mem f → m'.mem f = m.mem f := by
  have hlt : a < 2 ^ 64 := ha.2.trans (by decide)
  have hres := mmuMap_result a phys flags h.used
  rw [hr, alignDown_of_aligned ha.1 hlt] at hres
  have hpres : pteIsPresent (pteMake (alignDown phys pageSize) (flags ||| ptePresent)) = true :=
    pteIsPresent_make _ _
  generalize pteMake (alignDown phys pageSize) (flags ||| ptePresent) = w at hres hpres ⊢
  cases hres with
  | @ok m₁ l hx hl habs =>
    have hown : Owns root K D L m₁ := (Extends.ownSteps (A := fun _ => False) hx).owns h
    have hlast := lastLevel_of_absent hown.huge hl habs
    refine ⟨fun v hv => ?_, fun f hf ht => ?_⟩
    · show entryAt (m₁.mem.write l w) root v = _
      rw [entryAt_write hown.level hlast, hpres, if_pos rfl, hx.entryAt_eq h.used h.level]
      refine if_congr ⟨fun hvl => ?_, fun hva => by rwa [hva]⟩ rfl rfl
      rcases walkLoc_halfSep hown.level hown.half hlast hvl hl with ⟨hp, hi⟩ | ⟨hup, -⟩
      · have hb : userSpaceEnd < 2 ^ 48 := by decide
        exact userPage_eq hv ha (page_eq_of_indices (hv.2.trans hb) (ha.2.trans hb) hp hi)
      have := lowPage_index hv.2
      omega
    rw [← hx.mem_other h hf ht]
    obtain ⟨p, hp, -, htab⟩ := hlast
    funext i
    refine PhysMem.write_of_ne fun he => hx.noTable h hf ht p hp ?_
    rw [htab, ← he]

end Map

section Parent

variable {P : Type} [FramePool P]

/-- `K` has the tables and pages of the user half of `src`. -/
structure Frozen (src : ℕ) (K : ℕ → Prop) (mem : PhysMem) : Prop where
  tables : ∀ v, UserPage v → ∀ p f, p <+: pathOf v → tableAt mem src p = some f → K f
  pages : ∀ v e, UserPage v → entryAt mem src v = some e → K (pteTable e) ∧ pteTable e ≠ 0

lemma Frozen.entryAt (h : Frozen src K mem) (hm : ∀ f, K f → mem' f = mem f) (hv : UserPage v) :
    entryAt mem' src v = entryAt mem src v := by
  have hwalk : walkLoc mem' src v = walkLoc mem src v :=
    walkLoc_congr fun p f i hpre hf => by
      rw [hm f (h.tables v hv p f ((prefix_append p [i]).trans hpre) hf)]
  rw [Obelisk.entryAt, hwalk, Obelisk.entryAt]
  cases hl : walkLoc mem src v with
  | none => rfl
  | some l =>
    have hk : K l.1 := by
      rcases walkFrom_cases hl with ⟨p, hpre, -, ht, -⟩ | ⟨ht, -⟩
      · exact h.tables v hv p l.1 ((prefix_append p _).trans hpre) ht
      · exact h.tables v hv _ l.1 prefix_rfl ht
    rw [bind_some, bind_some, PhysMem.read, PhysMem.read, hm _ hk]

/-- The child's page `v` is a copy of the parent's: another frame with the same contents, mapped
with the same flags but `PTE_COW`. -/
def Copied (src c : ℕ) (mem₀ mem : PhysMem) (v : ℕ) : Prop :=
  match entryAt mem₀ src v with
  | none => entryAt mem c v = none
  | some e => ∃ e', entryAt mem c v = some e' ∧ pteTable e' ≠ pteTable e ∧ mem (pteTable e') = mem₀ (pteTable e) ∧
      e' &&& ~~~pageFrameMask = e &&& ~~~pageFrameMask &&& ~~~pteCow

lemma resolve_flags {m : Machine P} (hv : UserPage v) (h : entryAt m.mem src v = some e) :
    mmuResolve src v m = pteTable e * 4096 ∧ mmuGetFlags src v m = e &&& ~~~pageFrameMask := by
  have hoff : v &&& 0xFFF = 0 := by
    rw [show 0xFFF = 2 ^ 12 - 1 by rfl, Nat.and_two_pow_sub_one_eq_mod]; exact hv.1
  constructor
  · rw [mmuResolve_eq, h]
    show pteGetFrame e ||| (v &&& 0xFFF) = _
    rw [hoff, Nat.or_zero, pteGetFrame_eq]
  obtain ⟨l, hl, rfl⟩ := entryAt_some.mp h
  rw [mmuGetFlags, pagingWalk_false, hl.1]

lemma copyFlags (h : pteIsPresent e = true) :
    (e &&& ~~~pageFrameMask &&& ~~~pteCow ||| ptePresent) &&& pageFrameMask = 0#64 ∧
      presentFlags (e &&& ~~~pageFrameMask &&& ~~~pteCow) = e &&& ~~~pageFrameMask &&& ~~~pteCow := by
  rw [pteIsPresent_eq] at h
  have hbit : ∀ i, ptePresent.getLsbD i = decide (i = 0) := fun i => by
    rw [ptePresent, BitVec.shiftLeft_zero, BitVec.getLsbD_one]; simp
  have hcow : pteCow.getLsbD 0 = false := by decide
  constructor
  · apply BitVec.eq_of_getLsbD_eq
    intro i _
    rw [BitVec.getLsbD_and, BitVec.getLsbD_or, BitVec.getLsbD_and, BitVec.getLsbD_and,
      BitVec.getLsbD_not, hbit, pageFrameMask_bit]
    by_cases hi : i = 0 <;> simp [hi]
    grind
  apply BitVec.eq_of_getLsbD_eq
  intro i _
  rw [presentFlags, BitVec.getLsbD_and, BitVec.getLsbD_or, BitVec.getLsbD_and, BitVec.getLsbD_and,
    BitVec.getLsbD_not, BitVec.getLsbD_not, hbit, pageFrameMask_bit]
  by_cases hi : i = 0
  · subst hi
    simpa [h] using hcow
  simp [hi]
  grind

end Parent

def mapped (mem : PhysMem) (root v : ℕ) : Bool := (entryAt mem root v).isSome

def tablesFor (mem : PhysMem) (root : ℕ) (pages : List ℕ) : Finset (List ℕ) :=
  (pages.filter (mapped mem root)).toFinset.biUnion tablePaths

lemma tablePaths_subset (hv : v ∈ pages)
    (hm : mapped mem root v = true) : tablePaths v ⊆ tablesFor mem root pages :=
  subset_biUnion_of_mem tablePaths (mem_toFinset.mpr (mem_filter.mpr ⟨hv, hm⟩))

lemma tablesFor_append (mem : PhysMem) (root a : ℕ) (pages : List ℕ) : tablesFor mem root (pages ++ [a]) =
      tablesFor mem root pages ∪ if mapped mem root a then tablePaths a else ∅ := by
  rw [tablesFor, filter_append, toFinset_append, union_biUnion, tablesFor]
  by_cases h : mapped mem root a = true <;> simp [h]

lemma isPath_tablesFor {p : List ℕ} (h : p ∈ tablesFor mem root pages) : IsPath p := by
  obtain ⟨v, -, hv⟩ := mem_biUnion.mp h
  exact isPath_initial (initial_of_mem hv)

lemma OwnSteps.missing_subset {P : Type} [FramePool P] {D A : ℕ → Prop}
    {x y : Machine P × Set Loc} (hs : OwnSteps root K A x y) (h : Owns root K D x.2 x.1) (hT : ∀ p ∈ T, IsPath p) :
    missing y.1.mem root T ⊆ missing x.1.mem root T := by
  intro p hp
  obtain ⟨hpT, hnone⟩ := mem_filter.mp hp
  refine mem_filter.mpr ⟨hpT, ?_⟩
  by_contra hsome
  obtain ⟨f, hf⟩ := ne_none_iff_exists'.mp hsome
  rw [hs.tableAt_mono h (hT p hpT) hf] at hnone
  cases hnone

section Taken

variable {P : Type} [CountedPool P] {root f g : ℕ} {K D : ℕ → Prop} {L : Set Loc} {m m₁ : Machine P}

/-- The frame `g` is taken, with a copy of `f`. -/
structure TakenCopy (f g : ℕ) (m m₁ : Machine P) : Prop where
  free : Free m.pool g
  taken : ¬ Free m₁.pool g
  mono : ∀ j, Free m₁.pool j → Free m.pool j
  lt : g < 2 ^ 40
  count : count m₁.pool + 1 = count m.pool
  mem : m₁.mem = m.mem.copyFrame g f

lemma allocPages_takenCopy {pool : P} (h : allocPages 1 m.pool = (phys, pool))
    (h0 : phys ≠ 0) : ∃ g, phys = g * 4096 ∧ TakenCopy f g m ⟨pool, m.mem.copyFrame g f⟩ := by
  have hne : (allocPages 1 m.pool).1 ≠ 0 := by rwa [h]
  obtain ⟨g, hg, hlt, -, hrange⟩ := allocPages_fresh hne
  obtain ⟨hfree, htaken⟩ := hrange g (le_refl g) (Nat.lt_succ_self g)
  have hmono := fun j => allocPages_mono (n := 1) (p := m.pool) (f := j)
  have hcount := allocPages_one_count hne
  rw [h] at hg htaken hmono hcount
  exact ⟨g, hg, hfree, htaken, hmono, by omega, hcount, rfl⟩

variable (ht : TakenCopy f g m m₁) (h : Owns root K D L m)
include ht h

lemma TakenCopy.steps (A : ℕ → Prop) :
    OwnSteps root K A (m, L) (m₁, L) ∧ Loose root K L m₁ g := by
  obtain ⟨pool, mem⟩ := m₁
  obtain rfl : mem = update m.mem g (m.mem f) := ht.mem
  exact take_fresh h ht.mono ht.free ht.taken (m.mem f)

lemma TakenCopy.noTable : NoTable root m.mem g := fun p hp htab => h.used p g hp htab ht.free

lemma TakenCopy.missing_eq (hT : ∀ p ∈ T, IsPath p) :
    missing m₁.mem root T = missing m.mem root T := by
  rw [ht.mem]
  exact filter_congr fun p hp => by
    rw [PhysMem.copyFrame, tableAt_fill (ht.noTable h) _ (hT p hp)]

lemma TakenCopy.noTable_of (hj : NoTable root m.mem j) : NoTable root m₁.mem j := by
  rw [ht.mem]
  exact hj.congr fun p hp => tableAt_fill (ht.noTable h) _ hp

lemma TakenCopy.entryAt_eq (v : ℕ) : entryAt m₁.mem root v = entryAt m.mem root v := by
  rw [ht.mem]
  exact entryAt_fill (ht.noTable h) _ v

omit h in
lemma TakenCopy.mem_of_ne (hj : j ≠ g) : m₁.mem j = m.mem j := by
  rw [ht.mem]
  exact update_of_ne hj _ _

omit h in
lemma TakenCopy.mem_self : m₁.mem g = m.mem f := by
  rw [ht.mem]
  exact update_self _ _ _

end Taken

/-! ## The pages copied so far -/

section Clone

variable {P : Type} [CountedPool P] (src c : ℕ) (K : ℕ → Prop) (S : Finset (List ℕ)) (mem₀ : PhysMem) (n₀ : ℕ)

/-- The child after the pages `done` have been copied without a failure: `n₀` frames were free when
it was still empty, and `S` are the tables that the copying of all pages takes. -/
structure CloneInv (done : List ℕ) (m : Machine P) (L : Set Loc) : Prop where
  owns : Owns c K (fun v => pml4Index v < 256) L m
  user : ∀ v ∈ done, UserPage v
  pinned : ∀ f, K f → m.mem f = mem₀ f
  copied : ∀ v ∈ done, Copied src c mem₀ m.mem v
  empty : ∀ v, UserPage v → v ∉ done → entryAt m.mem c v = none
  tables : missing m.mem c (tablesFor mem₀ src done) = ∅
  tables_subset : tablesFor mem₀ src done ⊆ S
  account : count m.pool + done.countP (mapped mem₀ src) + S.card = n₀ + (missing m.mem c S).card

/-- No frame is left. -/
structure Spent (m : Machine P) : Prop where
  used : ¬ Free m.pool 0
  pinned : ∀ f, K f → m.mem f = mem₀ f
  count : count m.pool = 0

/-- The frames ran out while the last mapped page of the list was being copied: there was one for
the page itself but not for all its tables. -/
def Starved (pages : List ℕ) (mem : PhysMem) : Prop :=
  ∃ d x r, pages = d ++ x :: r ∧ (mapped mem₀ src x = true ∧ entryAt mem c x = none) ∧
    (∀ v ∈ r, mapped mem₀ src v = false) ∧
    d.countP (mapped mem₀ src) + 1 + (tablesFor mem₀ src d).card ≤ n₀ ∧
    n₀ < d.countP (mapped mem₀ src) + 1 + S.card

def CloneState (done : List ℕ) (m : Machine P) : Prop :=
  (∃ L, CloneInv src c K S mem₀ n₀ done m L) ∨ (Spent K mem₀ m ∧ Starved src c S mem₀ n₀ done m.mem)

variable {src c K S mem₀ n₀} {done : List ℕ} {m m' : Machine P} {L : Set Loc} {a : ℕ}

lemma Copied.of_absent (h : mapped mem₀ src v = false) :
    Copied src c mem₀ mem v ↔ entryAt mem c v = none := by
  rw [mapped, isSome_eq_false_iff, isNone_iff_eq_none] at h
  rw [Copied, h]

lemma Copied.not_absent (h : Copied src c mem₀ mem v) (hm : mapped mem₀ src v = true) : entryAt mem c v ≠ none := by
  obtain ⟨e, he⟩ := isSome_iff_exists.mp hm
  rw [Copied, he] at h
  obtain ⟨e', he', -⟩ := h
  exact he'.symm ▸ some_ne_none e'

lemma CloneInv.skip (h : CloneInv src c K S mem₀ n₀ done m L) (ha : UserPage a) (hna : a ∉ done)
    (hm : mapped mem₀ src a = false) : CloneInv src c K S mem₀ n₀ (done ++ [a]) m L where
  owns := h.owns
  user := forall_mem_append.mpr ⟨h.user, forall_mem_singleton.mpr ha⟩
  pinned := h.pinned
  copied := by
    refine forall_mem_append.mpr ⟨h.copied, forall_mem_singleton.mpr ?_⟩
    rw [Copied.of_absent hm]
    exact h.empty a ha hna
  empty := fun v hv hnv => h.empty v hv fun hd => hnv (mem_append_left _ hd)
  tables := by
    rw [tablesFor_append, hm]
    simpa using h.tables
  tables_subset := by
    rw [tablesFor_append, hm]
    simpa using h.tables_subset
  account := by
    rw [countP_append, countP_singleton, hm]
    simpa using h.account

lemma Copied.mono (h : Copied src c mem₀ mem v) (hentry : entryAt mem' c v = entryAt mem c v)
    (hdata : ∀ e, entryAt mem c v = some e → mem' (pteTable e) = mem (pteTable e)) :
    Copied src c mem₀ mem' v := by
  unfold Copied at h ⊢
  rw [hentry]
  cases he : entryAt mem₀ src v with
  | none => rw [he] at h; exact h
  | some e =>
    rw [he] at h
    obtain ⟨e', he', hne, hmem, hflags⟩ := h
    exact ⟨e', he', hne, (hdata e' he').trans hmem, hflags⟩

lemma CloneInv.page (h : CloneInv src c K S mem₀ n₀ done m L) (hv : UserPage v) (he : entryAt m.mem c v = some e) :
    ¬ Free m.pool (pteTable e) ∧ NoTable c m.mem (pteTable e) := by
  obtain ⟨l, hl, rfl⟩ := entryAt_some.mp he
  have hmem := h.owns.cover v (lowPage_index hv.2) l hl
  exact ⟨(h.owns.frame hmem).used, (h.owns.frame hmem).table⟩

section Page

variable {e : BitVec 64} {g : ℕ} {m₁ : Machine P} (h : CloneInv src c K S mem₀ n₀ done m L)
  (hK : K 0) (ha : UserPage a) (hna : a ∉ done) (ht : TakenCopy (pteTable e) g m m₁)
include h hK ha hna ht

lemma CloneInv.copy (hsrc : Frozen src K mem₀) (he : entryAt mem₀ src a = some e)
    (hS : OneUpper S) (hsub : tablePaths a ⊆ S)
    (hr : mmuMap c a (g * 4096) (e &&& ~~~pageFrameMask &&& ~~~pteCow) m₁ = (0, m')) :
    ∃ L', CloneInv src c K S mem₀ n₀ (done ++ [a]) m' L' := by
  have hmap : mapped mem₀ src a = true := by rw [mapped, he]; rfl
  have hlt : a < 2 ^ 64 := ha.2.trans (by decide)
  have hdown := alignDown_of_aligned ha.1 hlt
  have hg0 : g ≠ 0 := fun hg => h.owns.pinned_used 0 hK (hg ▸ ht.free)
  obtain ⟨le, hle, rfl⟩ := entryAt_some.mp he
  obtain ⟨hflags, hsame⟩ := copyFlags hle.2
  obtain ⟨hsteps, hloose⟩ := ht.steps h.owns (fun v => v = a)
  have hown : Owns c K (fun v => pml4Index v < 256) L m₁ := hsteps.owns h.owns
  obtain ⟨hr0, -⟩ | ⟨-, l, hl, hlink, -⟩ :=
    map_frame (A := fun v => v = a) hown hloose ht.lt hg0 ha.1 hlt hflags hr
  · exact absurd rfl hr0
  obtain ⟨hent, hkeep⟩ := mmuMap_entryAt hown ha hr
  obtain ⟨hcount, hnone⟩ := mmuMap_count hown hK hS (hdown.symm ▸ hsub) hr
  rw [hdown] at hnone
  rw [ht.missing_eq h.owns hS.1] at hcount
  have hother : ∀ v, UserPage v → v ≠ a → entryAt m'.mem c v = entryAt m.mem c v :=
    fun v hv hne => by rw [hent v hv, if_neg hne, ht.entryAt_eq h.owns]
  have hpin : ∀ f, K f → m₁.mem f = mem₀ f := fun f hf =>
    (hsteps.mem_pinned h.owns hf).trans (h.pinned f hf)
  refine ⟨insert l L, (hlink rfl).owns hown, ?_, fun f hf => ?_, ?_, fun v hv hnv => ?_, ?_, ?_, ?_⟩
  · exact forall_mem_append.mpr ⟨h.user, forall_mem_singleton.mpr ha⟩
  · exact ((hlink rfl).mem_pinned hown hf).trans (hpin f hf)
  · refine forall_mem_append.mpr ⟨fun v hv => ?_, forall_mem_singleton.mpr ?_⟩
    · have hne : v ≠ a := fun hva => hna (hva ▸ hv)
      refine (h.copied v hv).mono (hother v (h.user v hv) hne) fun e' he' => ?_
      obtain ⟨hused, hnt⟩ := h.page (h.user v hv) he'
      have hneg : pteTable e' ≠ g := fun heq => hused (heq ▸ ht.free)
      rw [hkeep _ (fun hf => hused (ht.mono _ hf)) (ht.noTable_of h.owns hnt), ht.mem_of_ne hneg]
    · have hframe := hsrc.pages a _ ha he
      have hself := pteTable_mapped ht.lt hflags
      unfold Copied
      rw [he, hent a ha, if_pos rfl]
      refine ⟨_, rfl, ?_, ?_, ?_⟩
      · rw [hself]
        exact fun hg => hloose.pinned (hg ▸ hframe.1)
      · rw [hself, hkeep g ht.taken hloose.table, ht.mem_self, h.pinned _ hframe.1]
      · exact (congrArg Prod.snd (translation_pteMake ..)).trans hsame
  · have hmem : v ∉ done ∧ v ≠ a := by simpa using hnv
    rw [hother v hv hmem.2]
    exact h.empty v hv hmem.1
  · rw [tablesFor_append, hmap, if_pos rfl, missing_union, hnone, union_empty]
    rw [← subset_empty, ← h.tables, ← ht.missing_eq h.owns fun p => isPath_tablesFor]
    exact (hlink rfl).missing_subset hown fun p => isPath_tablesFor
  · rw [tablesFor_append, hmap, if_pos rfl]
    exact union_subset h.tables_subset hsub
  have hc := ht.count
  have hacc := h.account
  rw [countP_append, countP_singleton, hmap, if_pos rfl]
  omega

lemma CloneInv.spent {r : ℤ} (hr0 : r ≠ 0) (hr : mmuMap c a (g * 4096) flags m₁ = (r, m')) :
    Spent K mem₀ m' ∧ entryAt m'.mem c a = none ∧ count m.pool ≤ (missing m.mem c (tablePaths a)).card := by
  have hdown := alignDown_of_aligned ha.1 (ha.2.trans (by decide))
  obtain ⟨hsteps, hloose⟩ := ht.steps h.owns (fun v => v = a)
  have hown : Owns c K (fun v => pml4Index v < 256) L m₁ := hsteps.owns h.owns
  have hnone : entryAt m₁.mem c a = none := (ht.entryAt_eq h.owns a).trans (h.empty a ha hna)
  rw [← and_assoc]
  constructor
  · have hres := mmuMap_result a (g * 4096) flags hown.used
    rw [hr, hdown] at hres
    cases hres with
    | @noMem m2 hx _ hz =>
      have hsteps' : OwnSteps c K (fun v => v = a) (m₁, L) (m2, L) := hx.ownSteps
      have hown2 : Owns c K (fun v => pml4Index v < 256) L m2 := hsteps'.owns hown
      obtain ⟨hcount, hpool⟩ := allocPage_empty (hown2.pinned_used 0 hK) hz
      refine ⟨⟨?_, fun f hf => ?_, ?_⟩, (hx.entryAt_eq hown.used hown.level a).trans hnone⟩
      · show ¬ Free (allocPage m2.pool).2 0
        rw [hpool]
        exact hown2.pinned_used 0 hK
      · exact ((hsteps'.mem_pinned hown hf).trans (hsteps.mem_pinned h.owns hf)).trans (h.pinned f hf)
      show count (allocPage m2.pool).2 = 0
      rw [hpool, hcount]
    | exist hx he' =>
      rw [hx.entryAt_eq hown.used hown.level, hnone] at he'
      cases he'
    | ok => exact absurd rfl hr0
  by_contra hlt
  refine hr0 ?_
  rw [← show (mmuMap c a (g * 4096) flags m₁).1 = r by rw [hr]]
  refine mmuMap_ok hown hK (hdown.symm ▸ hnone) ?_
  rw [hdown, ht.missing_eq h.owns (oneUpper_tablePaths a).1]
  have := ht.count
  omega

end Page

lemma CloneState.pinned (h : CloneState src c K S mem₀ n₀ done m) {f : ℕ} (hf : K f) :
    m.mem f = mem₀ f := by
  obtain ⟨L, h⟩ | ⟨h, -⟩ := h <;> exact h.pinned f hf

lemma CloneInv.starved (h : CloneInv src c K S mem₀ n₀ done m L)
    (ha : mapped mem₀ src a = true ∧ entryAt m'.mem c a = none) (hsub : tablePaths a ⊆ S) (hpos : 0 < count m.pool)
    (hle : count m.pool ≤ (missing m.mem c (tablePaths a)).card) :
    Starved src c S mem₀ n₀ (done ++ [a]) m'.mem := by
  have hacc := h.account
  refine ⟨done, a, [], rfl, ha, forall_mem_nil _, ?_, ?_⟩
  · have hdisj : missing m.mem c S ⊆ S \ tablesFor mem₀ src done := by
      intro p hp
      obtain ⟨hpS, hnone⟩ := mem_filter.mp hp
      refine mem_sdiff.mpr ⟨hpS, fun hd => ?_⟩
      have hmem : p ∈ missing m.mem c (tablesFor mem₀ src done) := mem_filter.mpr ⟨hd, hnone⟩
      rw [h.tables] at hmem
      exact notMem_empty p hmem
    have hcard := card_le_card hdisj
    rw [card_sdiff_of_subset h.tables_subset] at hcard
    have hle' := card_le_card h.tables_subset
    omega
  have hcard : (missing m.mem c (tablePaths a)).card ≤ (missing m.mem c S).card :=
    card_le_card (filter_subset_filter _ hsub)
  omega

lemma CloneState.page (h : CloneState src c K S mem₀ n₀ done m) (hsrc : Frozen src K mem₀)
    (hK : K 0) (hS : OneUpper S) (ha : UserPage a) (hna : a ∉ done)
    (hsub : mapped mem₀ src a = true → tablePaths a ⊆ S)
    (hr : clonePages src c (n + 1) a m = (true, m')) :
    ∃ m₁, CloneState src c K S mem₀ n₀ (done ++ [a]) m₁ ∧
      clonePages src c n (a + pageSize) m₁ = (true, m') := by
  have hentry := hsrc.entryAt (fun f hf => h.pinned hf) ha
  unfold clonePages at hr
  cases he : entryAt mem₀ src a with
  | none =>
    have hmap : mapped mem₀ src a = false := by rw [mapped, he]; rfl
    rw [he] at hentry
    rw [mmuResolve_eq, hentry] at hr
    refine ⟨m, ?_, hr⟩
    obtain ⟨L, h⟩ | ⟨hspent, d, x, r, rfl, hx, hrest, hlow, hup⟩ := h
    · exact .inl ⟨L, h.skip ha hna hmap⟩
    refine .inr ⟨hspent, d, x, r ++ [a], by simp, hx, ?_, hlow, hup⟩
    exact forall_mem_append.mpr ⟨hrest, forall_mem_singleton.mpr hmap⟩
  | some e =>
    have hmap : mapped mem₀ src a = true := by rw [mapped, he]; rfl
    obtain ⟨hphys, hflags⟩ := resolve_flags ha (hentry.trans he)
    have h0 : pteTable e * 4096 ≠ 0 := by
      have := (hsrc.pages a e ha he).2
      omega
    rw [hphys, hflags, if_pos h0] at hr
    dsimp only at hr
    rw [physToPfn_frame] at hr
    generalize halloc : allocPages 1 m.pool = r at hr
    obtain ⟨newPhys, pool⟩ := r
    dsimp only at hr
    split_ifs at hr with hz
    · cases hr
    obtain ⟨g, rfl, ht⟩ := allocPages_takenCopy (f := pteTable e) halloc hz
    rw [physToPfn_frame] at hr
    refine ⟨_, ?_, hr⟩
    have hcount := ht.count
    obtain ⟨L, h⟩ | ⟨hspent, -⟩ := h
    · generalize hmm : mmuMap c a (g * 4096) (e &&& ~~~pageFrameMask &&& ~~~pteCow)
        ⟨pool, m.mem.copyFrame g (pteTable e)⟩ = r
      obtain ⟨ret, m₁⟩ := r
      by_cases hret : ret = 0
      · subst hret
        exact .inl (h.copy hK ha hna ht hsrc he hS (hsub hmap) hmm)
      obtain ⟨hspent, hnone, hle⟩ := h.spent hK ha hna ht hret hmm
      exact .inr ⟨hspent, h.starved ⟨hmap, hnone⟩ (hsub hmap) (by omega) hle⟩
    have := hspent.count
    omega

lemma clonePages_state (hsrc : Frozen src K mem₀) (hK : K 0) (hS : OneUpper S)
    (h : CloneState src c K S mem₀ n₀ done m)
    (huser : ∀ v ∈ range' a n pageSize, UserPage v ∧ v ∉ done ∧ (mapped mem₀ src v = true → tablePaths v ⊆ S))
    (hr : clonePages src c n a m = (true, m')) :
    CloneState src c K S mem₀ n₀ (done ++ range' a n pageSize) m' := by
  induction n generalizing a done m with
  | zero =>
    cases hr
    simpa using h
  | succ n ih =>
    rw [range'_succ] at huser ⊢
    obtain ⟨⟨ha, hna, hsub⟩, hrest⟩ := forall_mem_cons.mp huser
    obtain ⟨m₁, h1, hr1⟩ := h.page hsrc hK hS ha hna hsub hr
    rw [append_cons]
    refine ih h1 (fun v hv => ?_) hr1
    obtain ⟨hv1, hv2, hv3⟩ := hrest v hv
    refine ⟨hv1, ?_, hv3⟩
    obtain ⟨i, -, rfl⟩ := mem_range'.mp hv
    simp only [mem_append, List.mem_singleton, not_or]
    refine ⟨hv2, ?_⟩
    simp only [pageSize]
    omega

end Clone

end Obelisk
