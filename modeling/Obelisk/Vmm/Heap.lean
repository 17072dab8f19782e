import Obelisk.Paging.Needed
import Obelisk.Vmm.Fresh

/-!
# Moving the break

`vmm_brk` maps the pages of a growing heap one after another and keeps what it has mapped when it
fails on the way; pages below the old break are not looked at.
-/

namespace Obelisk

open KLib Relation Function Finset Option FramePool CountedPool

variable {a g j k n v : ℕ} {b : Bool} {e : BitVec 64}
variable {f newBrk : ℕ} {ops : List VmOp}

def heapEntry (g : ℕ) : BitVec 64 :=
  pteMake (alignDown (g * 4096) pageSize) (vmmProtToPteFlags protWrite ||| ptePresent)

section Page

variable {P : Type} [FramePool P] {root addr : ℕ} {K D : ℕ → Prop} {L : Set Loc} {m m' : Machine P}

lemma fill_upper {mem : PhysMem} (hg : NoTable root mem g) (data : ℕ → BitVec 64) :
    ∀ r t i, IsPath (r ++ [i]) → tableAt mem root r = some t → update mem g data t i = mem t i :=
  fun _ _ i hr ht => fill_table hg data i hr.left ht

/-- **The page table after a new page** in the frame `g`. -/
structure NewPage (root addr g : ℕ) (m m' : Machine P) : Prop where
  absent : entryAt m.mem root addr = none
  pool : ∃ c, m'.pool = FramePool.takes (1 + c) m.pool ∧ Supplies (1 + c) m.pool ∧
    ∀ S, addr ∈ S → (needed m'.mem root S).card + c = (needed m.mem root S).card
  keys : ∀ x y, leafKey m'.mem root x = leafKey m'.mem root y ↔ leafKey m.mem root x = leafKey m.mem root y
  entry : ∀ v, entryAt m'.mem root v = if leafKey m.mem root v = leafKey m.mem root addr then some (heapEntry g)
    else entryAt m.mem root v
  frame : pteTable (heapEntry g) = g
  fresh : Free m.pool g
  mono : ∀ f, Free m'.pool f → Free m.pool f
  taken : ¬ Free m'.pool g
  table : NoTable root m'.mem g
  zero : m'.mem g = fun _ => 0#64
  other : ∀ f, ¬ Free m.pool f → NoTable root m.mem f → NoTable root m'.mem f ∧ m'.mem f = m.mem f

lemma GrowPage.newPage (hp : GrowPage root addr m m') (h : Owns root K D L m)
    (ha : addr % pageSize = 0) (hlt : addr < 2 ^ 64) : ∃ g, NewPage root addr g m m' := by
  obtain ⟨phys, m1, hphys, h0, hr, rfl⟩ := hp
  obtain ⟨g, rfl, hg40, hsteps, hloose⟩ := take_plain (A := fun _ => True) h hphys h0
  obtain ⟨g', hg', -, hfree, -⟩ := allocPage_fresh (hphys ▸ h0)
  obtain rfl : g = g' := by omega
  have hown : Owns root K D L m.afterAlloc := hsteps.owns h
  rw [physToPfn_frame]
  have hres := mmuMap_builds addr (g * 4096) (vmmProtToPteFlags protWrite) hown.used
  rw [hr, alignDown_of_aligned ha hlt] at hres
  generalize hw : pteMake (alignDown (g * 4096) pageSize) (vmmProtToPteFlags protWrite ||| ptePresent) = w at hres
  have hpres : pteIsPresent w = true := hw ▸ pteIsPresent_make _ _
  dsimp only at hres
  cases hres with
  | @ok c m2 l hb hl habs =>
    have hx := hb.toExtends
    have hown2 : Owns root K D L m2 := (Extends.ownSteps (A := fun _ => True) hx).owns hown
    have hlast := lastLevel_of_absent hown2.huge hl habs
    have hloose2 := hx.loose hown hloose
    have hupper := write_upper hown2.level hlast w
    have hnt : NoTable root (m2.mem.write l w) g :=
      hloose2.table.congr fun p hpath => tableAt_write hown2.level hlast w hpath
    have hold : ∀ v, entryAt m2.mem root v = entryAt m.mem root v :=
      hx.entryAt_eq hown.used hown.level
    have hkeys : ∀ x y, leafKey m2.mem root x = leafKey m2.mem root y ↔
        leafKey m.mem root x = leafKey m.mem root y := hb.leafKey_iff hown.used hown.level
    have hkey : ∀ x, leafKey (update (m2.mem.write l w) g fun _ => 0#64) root x =
        leafKey m2.mem root x := fun x =>
      (leafKey_congr (fill_upper hnt _) x).trans (leafKey_congr hupper x)
    obtain ⟨hpool, hsup⟩ := hb.pool_eq
    refine ⟨g, ?_, ⟨c, ?_, ?_, fun S hS => ?_⟩, fun x y => ?_, fun v => ?_,
      pteTable_mapped hg40 (protFlags_frame _), hfree, fun f hf => ?_, hloose2.used, ?_, ?_,
      fun f hf hft => ?_⟩
    · rw [← hold, entryAt, hl, bind_some, habs]
      rfl
    · rwa [takes_add]
    · have hone : Supplies 1 m.pool := fun i hi => by
        obtain rfl : i = 0 := by omega
        show (allocPage m.pool).1 ≠ 0
        omega
      exact supplies_add.mpr ⟨hone, hsup⟩
    · show (needed (update (m2.mem.write l w) g fun _ => 0#64) root S).card + c = _
      rw [needed_congr (fill_upper hnt _), needed_congr hupper]
      exact hb.card_needed hown.used hS
    · show leafKey (update (m2.mem.write l w) g fun _ => 0#64) root x =
        leafKey (update (m2.mem.write l w) g fun _ => 0#64) root y ↔ _
      rw [hkey, hkey]
      exact hkeys x y
    · show entryAt (update (m2.mem.write l w) g fun _ => 0#64) root v = _
      have hsame : walkLoc m2.mem root v = some l ↔
          leafKey m.mem root v = leafKey m.mem root addr := by
        rw [walkLoc_iff_leafKey hown2.level hlast, ← hkeys, (walkLoc_iff_leafKey hown2.level hlast).mp hl]
      rw [entryAt_fill hnt, entryAt_write hown2.level hlast, hpres, if_pos rfl, hold, heapEntry, hw]
      exact if_congr hsame rfl rfl
    · exact allocPage_mono (hx.pool_mono hf)
    · exact hnt.congr fun p hpath => tableAt_fill hnt _ hpath
    · exact update_self _ _ _
    -- a frame in use that is no table
    have hf1 : ¬ Free m.afterAlloc.pool f := fun hc => hf (allocPage_mono hc)
    have hft2 := hx.noTable hown hf1 hft
    have hfg : f ≠ g := by
      rintro rfl
      exact hf hfree
    have hft3 : NoTable root (m2.mem.write l w) f :=
      hft2.congr fun p hpath => tableAt_write hown2.level hlast w hpath
    refine ⟨hft3.congr fun p hpath => tableAt_fill hnt _ hpath, ?_⟩
    show update (m2.mem.write l w) g (fun _ => 0#64) f = m.mem f
    rw [update_of_ne hfg]
    refine (funext fun i => PhysMem.write_of_ne fun he => ?_).trans (hx.mem_other hown hf1 hft)
    obtain ⟨p, hpath, ht⟩ := hlast.table
    exact hft2 p hpath (by rw [ht, ← he])

/-! ## Which growth succeeds -/

def heapPages (addr k : ℕ) : Finset ℕ := (range k).image fun i => addr + i * pageSize

/-- The next `k` pages are unmapped and have entries of their own, and there are frames for them and
for their missing tables. -/
structure HeapFits (root addr : ℕ) (m : Machine P) (k : ℕ) : Prop where
  absent : ∀ i < k, entryAt m.mem root (addr + i * pageSize) = none
  keys : ∀ i < k, ∀ j < i, leafKey m.mem root (addr + i * pageSize) ≠ leafKey m.mem root (addr + j * pageSize)
  frames : Supplies (k + (needed m.mem root (heapPages addr k)).card) m.pool

lemma heapPages_mono {addr : ℕ} (h : j ≤ k) : heapPages addr j ⊆ heapPages addr k :=
  image_subset_image (range_mono h)

lemma HeapFits.mono (h : HeapFits root addr m k) (hjk : j ≤ k) : HeapFits root addr m j :=
  ⟨fun i hi => h.absent i (hi.trans_le hjk), fun i hi => h.keys i (hi.trans_le hjk),
    h.frames.mono (Nat.add_le_add hjk (card_le_card
      (biUnion_subset_biUnion_of_subset_left _ (heapPages_mono hjk))))⟩

lemma heapPages_succ (addr k : ℕ) :
    heapPages addr (k + 1) = insert addr (heapPages (addr + pageSize) k) := by
  ext v
  simp only [heapPages, mem_image, mem_range, mem_insert]
  constructor
  · rintro ⟨i, hi, rfl⟩
    cases i with
    | zero => exact .inl (by omega)
    | succ i => exact .inr ⟨i, by omega, by rw [add_mul]; omega⟩
  rintro (rfl | ⟨i, hi, rfl⟩)
  · exact ⟨0, by omega, by omega⟩
  · exact ⟨i + 1, by omega, by rw [add_mul]; omega⟩

lemma shift_page (addr i : ℕ) : addr + (i + 1) * pageSize = addr + pageSize + i * pageSize := by
  rw [add_mul]
  omega

lemma NewPage.fits_iff (hn : NewPage root addr g m m') (hh : HugePresent root m'.mem) :
    HeapFits root addr m (k + 1) ↔ HeapFits root (addr + pageSize) m' k := by
  obtain ⟨c, hpool, hsup, hcard⟩ := hn.pool
  have hself : entryAt m'.mem root addr ≠ none := by
    rw [hn.entry, if_pos rfl]
    exact some_ne_none _
  -- the page itself needs no table any more
  have hneed : needed m'.mem root (heapPages addr (k + 1)) =
      needed m'.mem root (heapPages (addr + pageSize) k) := by
    rw [heapPages_succ, needed, biUnion_insert]
    have hnone : needs m'.mem root addr = ∅ := by
      by_contra hc
      have hwalk := (walkLoc_eq_none_iff hh).mpr hc
      exact hself (by rw [entryAt, hwalk]; rfl)
    rw [hnone, empty_union]
    rfl
  have hcount := hcard (heapPages addr (k + 1)) (by rw [heapPages_succ]; exact mem_insert_self ..)
  rw [hneed] at hcount
  have hframes : Supplies (k + 1 + (needed m.mem root (heapPages addr (k + 1))).card) m.pool ↔ Supplies
        (k + (needed m'.mem root (heapPages (addr + pageSize) k)).card) m'.pool := by
    rw [hpool, show k + 1 + (needed m.mem root (heapPages addr (k + 1))).card =
      1 + c + (k + (needed m'.mem root (heapPages (addr + pageSize) k)).card) by omega,
      supplies_add]
    exact and_iff_right hsup
  constructor
  · intro h
    refine ⟨fun i hi => ?_, fun i hi j hj => ?_, hframes.mp h.frames⟩
    · have hkey := h.keys (i + 1) (by omega) 0 (by omega)
      rw [shift_page, zero_mul, add_zero] at hkey
      rw [hn.entry, if_neg hkey, ← shift_page]
      exact h.absent (i + 1) (by omega)
    have hkey := h.keys (i + 1) (by omega) (j + 1) (by omega)
    rw [shift_page, shift_page] at hkey
    rwa [Ne, hn.keys]
  intro h
  have hrest : ∀ i < k, leafKey m.mem root (addr + (i + 1) * pageSize) ≠ leafKey m.mem root addr ∧
      entryAt m.mem root (addr + (i + 1) * pageSize) = none := by
    intro i hi
    have hnone := h.absent i hi
    rw [hn.entry, ← shift_page] at hnone
    split_ifs at hnone with hk
    exact ⟨hk, hnone⟩
  refine ⟨fun i hi => ?_, fun i hi j hj => ?_, hframes.mpr h.frames⟩
  · cases i with
    | zero => rw [zero_mul, add_zero]; exact hn.absent
    | succ i => exact (hrest i (by omega)).2
  cases i with
  | zero => exact absurd hj (Nat.not_lt_zero j)
  | succ i =>
    cases j with
    | zero => rw [zero_mul, add_zero]; exact (hrest i (by omega)).1
    | succ j =>
      have hkey := h.keys i (by omega) j (by omega)
      rwa [Ne, hn.keys, ← shift_page, ← shift_page] at hkey

lemma GrowFail.not_fits (hf : GrowFail root addr m m') (h : Owns root K D L m)
    (ha : addr % pageSize = 0) (hlt : addr < 2 ^ 64) : ¬ HeapFits root addr m 1 := by
  intro hfit
  have habsent := hfit.absent 0 (by omega)
  rw [zero_mul, add_zero] at habsent
  cases hf with
  | mapped hres =>
    rw [mmuResolve_eq, habsent] at hres
    exact hres rfl
  | noFrame hz => exact hfit.frames 0 (by omega) hz
  | @mapFail phys r m1 hphys h0 hr hne =>
    obtain ⟨g, rfl, hg40, hsteps, -⟩ := take_plain (A := fun _ => True) h hphys h0
    have hown : Owns root K D L m.afterAlloc := hsteps.owns h
    have hres := mmuMap_builds addr (g * 4096) (vmmProtToPteFlags protWrite) hown.used
    rw [hr, alignDown_of_aligned ha hlt] at hres
    dsimp only at hres
    cases hres with
    | @noMem c m2 hb hwalk hz =>
      have hneed := (walkLoc_eq_none_iff (hb.hugePresent hown.used hown.huge)).mp hwalk
      have hmem : addr ∈ heapPages addr 1 := by simp [heapPages]
      have hcard := hb.card_needed hown.used hmem
      have hpos : 0 < (needed m2.mem root (heapPages addr 1)).card := by
        obtain ⟨key, hkey⟩ := nonempty_iff_ne_empty.mpr hneed
        exact card_pos.mpr ⟨key, mem_biUnion.mpr ⟨_, hmem, hkey⟩⟩
      rw [hb.pool_eq.1, show m.afterAlloc.pool = FramePool.takes 1 m.pool from rfl, ← takes_add] at hz
      have hmemory : needed m.afterAlloc.mem root (heapPages addr 1) =
        needed m.mem root (heapPages addr 1) := rfl
      rw [hmemory] at hcard
      exact not_supplies hz (by omega) hfit.frames
    | exist hb he =>
      rw [hb.toExtends.entryAt_eq hown.used hown.level, show m.afterAlloc.mem = m.mem from rfl, habsent] at he
      cases he
    | ok => exact hne rfl

/-- One turn of the loop in an owned page table. -/
lemma growHeap_page (h : Owns root K D L m) (ha : addr % pageSize = 0)
    (hlt : addr + (n + 1) * pageSize ≤ 2 ^ 64) (hr : growHeap root (n + 1) addr m = (b, m')) :
    (b = false ∧ GrowFail root addr m m') ∨ ∃ m1 g L1, NewPage root addr g m m1 ∧ Owns root K D L1 m1 ∧
      (addr + pageSize) % pageSize = 0 ∧ addr + pageSize + n * pageSize ≤ 2 ^ 64 ∧
      growHeap root n (addr + pageSize) m1 = (b, m') := by
  have hlt' := lt_of_pages hlt
  refine (growHeap_succ hr).imp_right fun ⟨m1, hpage, hrest⟩ => ?_
  obtain ⟨g, hnew⟩ := hpage.newPage h ha hlt'
  obtain ⟨-, -, l, -, hsteps⟩ := hpage.entries (A := fun _ => True) h ha hlt'
  exact ⟨m1, g, insert l L, hnew, (hsteps trivial).owns h, by rwa [Nat.add_mod_right], by rwa [← shift_page], hrest⟩

lemma growHeap_iff (h : Owns root K D L m) (ha : addr % pageSize = 0)
    (hlt : addr + n * pageSize ≤ 2 ^ 64) (hr : growHeap root n addr m = (b, m')) :
    b = true ↔ HeapFits root addr m n := by
  induction n generalizing addr m L with
  | zero =>
    cases hr
    exact iff_of_true rfl ⟨nofun, nofun, nofun⟩
  | succ n ih =>
    rcases growHeap_page h ha hlt hr with ⟨rfl, hfail⟩ | ⟨m1, g, L1, hnew, hown, ha1, hlt1, hrest⟩
    · exact iff_of_false Bool.false_ne_true fun hfit =>
        hfail.not_fits h ha (lt_of_pages hlt) (hfit.mono (by omega))
    rw [hnew.fits_iff hown.huge]
    exact ih hown ha1 hlt1 hrest

lemma GrowFail.entryAt_eq (hf : GrowFail root addr m m') (h : Owns root K D L m) (v : ℕ) :
    entryAt m'.mem root v = entryAt m.mem root v := by
  cases hf with
  | mapped | noFrame => rfl
  | mapFail hphys h0 hr hne =>
    obtain ⟨g, rfl, -, hsteps, -⟩ := take_plain (A := fun _ => True) h hphys h0
    have hown : Owns root K D L m.afterAlloc := hsteps.owns h
    have hres := mmuMap_result addr (g * 4096) (vmmProtToPteFlags protWrite) hown.used
    rw [hr] at hres
    dsimp only at hres
    cases hres with
    | noMem hx => exact hx.entryAt_eq hown.used hown.level v
    | exist hx => exact hx.entryAt_eq hown.used hown.level v
    | ok => exact absurd rfl hne

lemma NewPage.entry_of_some (hn : NewPage root addr g m m')
    (he : entryAt m.mem root v = some e) : entryAt m'.mem root v = some e := by
  rw [hn.entry, if_neg, he]
  intro hk
  rw [entryAt_of_key hk, hn.absent] at he
  cases he

lemma growHeap_entry (h : Owns root K D L m) (ha : addr % pageSize = 0) (hlt : addr + n * pageSize ≤ 2 ^ 64)
    (hr : growHeap root n addr m = (b, m')) (he : entryAt m.mem root v = some e) :
    entryAt m'.mem root v = some e := by
  induction n generalizing addr m L with
  | zero =>
    cases hr
    exact he
  | succ n ih =>
    rcases growHeap_page h ha hlt hr with ⟨rfl, hfail⟩ | ⟨m1, g, L1, hnew, hown, ha1, hlt1, hrest⟩
    · exact (hfail.entryAt_eq h v).trans he
    · exact ih hown ha1 hlt1 hrest (hnew.entry_of_some he)

/-- The heap has grown by `n` zeroed pages. -/
structure Grown (root addr n : ℕ) (frame : ℕ → ℕ) (m m' : Machine P) : Prop where
  entry : ∀ i < n, entryAt m'.mem root (addr + i * pageSize) = some (heapEntry (frame i))
  table : ∀ i < n, pteTable (heapEntry (frame i)) = frame i
  fresh : ∀ i < n, Free m.pool (frame i)
  zero : ∀ i < n, m'.mem (frame i) = fun _ => 0#64
  inj : ∀ i < n, ∀ j < i, frame i ≠ frame j
  added : ∀ v e, entryAt m.mem root v = none → entryAt m'.mem root v = some e → ∃ i < n, e = heapEntry (frame i)
  other : ∀ f, ¬ Free m.pool f → NoTable root m.mem f → m'.mem f = m.mem f

lemma growHeap_new (h : Owns root K D L m) (ha : addr % pageSize = 0)
    (hlt : addr + n * pageSize ≤ 2 ^ 64) (hr : growHeap root n addr m = (true, m')) :
    ∃ frame, Grown root addr n frame m m' := by
  induction n generalizing addr m L with
  | zero =>
    cases hr
    refine ⟨id, nofun, nofun, nofun, nofun, nofun, fun v e hv he => ?_, fun _ _ _ => rfl⟩
    rw [hv] at he
    cases he
  | succ n ih =>
    rcases growHeap_page h ha hlt hr with ⟨hb, -⟩ | ⟨m1, g, L1, hnew, hown, ha', hlt1, hrest⟩
    · cases hb
    obtain ⟨frame, hrest'⟩ := ih hown ha' hlt1 hrest
    have hfirst : entryAt m1.mem root addr = some (heapEntry g) := by rw [hnew.entry, if_pos rfl]
    refine ⟨fun i => i.casesOn g frame, fun i hi => ?_, fun i hi => ?_, fun i hi => ?_,
      fun i hi => ?_, fun i hi j hj => ?_, fun v e hv he => ?_, fun f hf hft => ?_⟩
    · cases i with
      | zero =>
        rw [zero_mul, add_zero]
        exact growHeap_entry hown ha' hlt1 hrest hfirst
      | succ i => rw [shift_page]; exact hrest'.entry i (by omega)
    · cases i with
      | zero => exact hnew.frame
      | succ i => exact hrest'.table i (by omega)
    · cases i with
      | zero => exact hnew.fresh
      | succ i => exact hnew.mono _ (hrest'.fresh i (by omega))
    · cases i with
      | zero => exact (hrest'.other g hnew.taken hnew.table).trans hnew.zero
      | succ i => exact hrest'.zero i (by omega)
    · cases i with
      | zero => exact absurd hj (Nat.not_lt_zero j)
      | succ i =>
        cases j with
        | zero =>
          intro (he : frame i = g)
          exact hnew.taken (he ▸ hrest'.fresh i (by omega))
        | succ j => exact hrest'.inj i (by omega) j (by omega)
    · by_cases hv1 : entryAt m1.mem root v = none
      · obtain ⟨i, hi, rfl⟩ := hrest'.added v e hv1 he
        exact ⟨i + 1, by omega, rfl⟩
      · -- the page shares the entry of the first one
        refine ⟨0, by omega, ?_⟩
        rw [hnew.entry, hv] at hv1
        split_ifs at hv1 with hk
        · have := growHeap_entry hown ha' hlt1 hrest (v := v)
            (by rw [hnew.entry, if_pos hk] : entryAt m1.mem root v = some (heapEntry g))
          rw [he] at this
          exact some.inj this
        · exact absurd rfl hv1
    obtain ⟨hft1, hmem⟩ := hnew.other f hf hft
    exact (hrest'.other f (fun hc => hf (hnew.mono f hc)) hft1).trans hmem

end Page

section Frames

variable {P : Type} [CountedPool P] {root addr : ℕ} {K D : ℕ → Prop} {L : Set Loc} {m m' : Machine P}

lemma NewTable.noTable_iff {p : List ℕ} {i x : ℕ} (hn : NewTable root p f i g m m') (hu : TablesUsed root m) :
    NoTable root m'.mem x ↔ NoTable root m.mem x ∧ x ≠ g := by
  constructor
  · intro h
    refine ⟨fun q hq ht => h q hq (hn.tableAt_mono hu hq ht), ?_⟩
    rintro rfl
    exact h _ hn.isPath (hn.tableAt_self hu)
  rintro ⟨h, hne⟩ q hq ht
  rcases hn.tableAt_cases hu hq ht with hold | ⟨he, -⟩
  · exact h q hq hold
  · exact hne he

lemma Builds.free_iff {virt : ℕ} (hb : Builds root virt k m m') (hu : TablesUsed root m) (f : ℕ) :
    Free m'.pool f ↔ Free m.pool f ∧ NoTable root m'.mem f := by
  induction hb with
  | refl => exact ⟨fun hf => ⟨hf, fun p hp ht => hu p f hp ht hf⟩, And.left⟩
  | table hb _ hn ih =>
    rw [hn.pool, free_allocPage hn.alloc hn.ne_zero, ih hu, hn.noTable_iff (hb.toExtends.tablesUsed hu), and_assoc]

lemma GrowFail.free_iff (hf : GrowFail root addr m m') (h : Owns root K D L m) (hK : K 0) (f : ℕ) :
    Free m'.pool f ↔ Free m.pool f ∧ NoTable root m'.mem f := by
  have hsame : Free m.pool f ↔ Free m.pool f ∧ NoTable root m.mem f :=
    ⟨fun hf => ⟨hf, fun p hp ht => h.used p f hp ht hf⟩, And.left⟩
  cases hf with
  | mapped => exact hsame
  | noFrame hz =>
    show Free (allocPage m.pool).2 f ↔ _
    rwa [(allocPage_empty (h.pinned_used 0 hK) hz).2]
  | @mapFail phys r m1 hphys h0 hr hne =>
    obtain ⟨g, rfl, -, hsteps, hloose⟩ := take_plain (A := fun _ => True) h hphys h0
    obtain ⟨g', hg', -, hfree, -⟩ := allocPage_fresh (hphys ▸ h0)
    obtain rfl : g = g' := by omega
    have hown : Owns root K D L m.afterAlloc := hsteps.owns h
    -- the walk has made some tables, and the frame goes back
    have hback : ∀ {virt c : ℕ} {m2 : Machine P}, Builds root virt c m.afterAlloc m2 →
        (Free (freePage (g * 4096) m2.pool) f ↔ Free m.pool f ∧ NoTable root m2.mem f) := by
      intro virt c m2 hb
      have hloose2 := hb.toExtends.loose hown hloose
      have hm : Managed m2.pool g := by
        rw [hb.pool_eq.1]
        exact managed_takes (managed_allocPage (managed_of_free hfree)) c
      rw [free_freePage hm hloose2.used, hb.free_iff hown.used,
        show m.afterAlloc.pool = (allocPage m.pool).2 from rfl,
        free_allocPage hg' (hphys ▸ h0)]
      constructor
      · rintro (⟨⟨hf, -⟩, ht⟩ | rfl)
        · exact ⟨hf, ht⟩
        · exact ⟨hfree, hloose2.table⟩
      rintro ⟨hf, ht⟩
      by_cases hfg : f = g
      · exact .inr hfg
      · exact .inl ⟨⟨hf, hfg⟩, ht⟩
    have hres := mmuMap_builds addr (g * 4096) (vmmProtToPteFlags protWrite) hown.used
    rw [hr] at hres
    dsimp only at hres
    cases hres with
    | @noMem c m2 hb hwalk hz =>
      have hown2 : Owns root K D L m2 :=
        (Extends.ownSteps (A := fun _ => True) hb.toExtends).owns hown
      show Free (freePage (g * 4096) (allocPage m2.pool).2) f ↔ _
      rw [(allocPage_empty (hown2.pinned_used 0 hK) hz).2]
      exact hback hb
    | exist hb => exact hback hb
    | ok => exact absurd rfl hne

def FramesManaged (L : Set Loc) (m : Machine P) : Prop :=
  ∀ l ∈ L, Managed m.pool (pteTable (m.mem.read l))

lemma unmapPage_owned (h : Owns root K D L m) (hM : FramesManaged L m) (hD : D a)
    (ha : a % pageSize = 0) (hlt : a < 2 ^ 64) :
    (entryAt m.mem root a = none ∧ unmapPage root a m = m) ∨
    ∃ l ∈ L, PresentAt m.mem root a l ∧ (unmapPage root a m).mem = m.mem.write l 0#64 ∧
      (∀ f, Free (unmapPage root a m).pool f ↔ Free m.pool f ∨ f = pteTable (m.mem.read l)) ∧
      Owns root K D (L \ {l}) (unmapPage root a m) ∧ FramesManaged (L \ {l}) (unmapPage root a m) := by
  cases he : entryAt m.mem root a with
  | none =>
    refine .inl ⟨rfl, ?_⟩
    rw [unmapPage, mmuResolve_eq, he]
    rfl
  | some e =>
    obtain ⟨l, hl, rfl⟩ := entryAt_some.mp he
    have hmem := h.cover a hD l hl
    have hres : mmuResolve root a m = pteTable (m.mem.read l) * 4096 := by
      have hoff : a &&& 0xFFF = 0 := by
        rw [show 0xFFF = 2 ^ 12 - 1 by rfl, Nat.and_two_pow_sub_one_eq_mod]; exact ha
      rw [mmuResolve_eq, he]
      show pteGetFrame (m.mem.read l) ||| (a &&& 0xFFF) = _
      rw [hoff, Nat.or_zero, pteGetFrame_eq]
    have hne := (h.frame hmem).ne
    have hun : unmapPage root a m =
        ⟨freePage (pteTable (m.mem.read l) * 4096) m.pool, m.mem.write l 0#64⟩ := by
      rw [unmapPage, hres]
      dsimp only
      rw [if_pos (by omega), mmuUnmap_eq, alignDown_of_aligned ha hlt, hl.1]
      dsimp only
      rw [if_pos hl.2]
    have hfree := free_freePage (hM l hmem) (h.frame hmem).used
    have hown : Owns root K D (L \ {l}) { m with mem := m.mem.write l 0#64 } :=
      OwnStep.owns (x := (m, L)) (y := (_, L \ {l}))
        (.unlink (A := fun _ => True) trivial hl.1 hmem rfl rfl) h
    have hread : ∀ l' ∈ L \ {l}, (m.mem.write l 0#64).read l' = m.mem.read l' :=
      fun l' hl' => read_write_of_ne hl'.2
    have hloose : Loose root K (L \ {l}) { m with mem := m.mem.write l 0#64 }
        (pteTable (m.mem.read l)) := by
      refine ⟨(h.frame hmem).used, (h.frame hmem).table.congr fun p hp =>
        tableAt_write h.level (h.frame hmem).last _ hp, fun l' hl' => ?_, (h.frame hmem).pinned⟩
      rw [hread l' hl']
      exact fun heq => hl'.2 (h.frame_inj l' hl'.1 l hmem heq)
    rw [hun]
    refine .inr ⟨l, hmem, hl, rfl, hfree, ?_, fun l' hl' => ?_⟩
    · exact OwnStep.owns (x := (_, L \ {l})) (y := (_, L \ {l}))
        (.free (A := fun _ => True) hloose rfl fun f hf => (hfree f).mp hf) hown
    show Managed _ (pteTable ((m.mem.write l 0#64).read l'))
    rw [hread l' hl']
    exact managed_freePage (hM l' hl'.1)

lemma unmapRange_frees {start stop : ℕ} (h : Owns root K D L m) (hM : FramesManaged L m)
    (hs : start % pageSize = 0) (hlt : stop ≤ 2 ^ 64) (hD : ∀ a, start ≤ a → a < stop → D a)
    (hv : v % pageSize = 0) (h₁ : start ≤ v) (h₂ : v < stop) :
    entryAt (unmapRange root start stop m).mem root v = none ∧ ∀ e, entryAt m.mem root v = some e →
        Free (unmapRange root start stop m).pool (pteTable e) := by
  -- what has lost its entry has its frame back
  have hinv := forRange_inv (i := 0) (n := pageCount start stop) (s := m)
    (f := fun i => unmapPage root (start + i * pageSize))
    (fun _ (t : Machine P) => (∃ L', Owns root K D L' t ∧ FramesManaged L' t) ∧
      FewerEntries root m t ∧ ∀ e, entryAt m.mem root v = some e → entryAt t.mem root v = none →
        Free t.pool (pteTable e))
    ⟨⟨L, h, hM⟩, fun _ _ h => h, fun e he hn => by rw [he] at hn; cases hn⟩
    fun i t _ hi ⟨⟨L', hown, hman⟩, hfew, hfree⟩ => by
      have hin : PageIn start stop (start + i * pageSize) := ⟨i, by omega, rfl⟩
      obtain ⟨hle, hlt'⟩ := hin.bounds
      have hfew' := hfew.trans (unmapPage_fewer root (start + i * pageSize) t)
      rcases unmapPage_owned hown hman (hD _ hle hlt') (hin.aligned hs) (by omega) with
        ⟨-, hsame⟩ | ⟨l, hl, hpres, hmem, hpool, hown', hman'⟩
      · rw [hsame]
        exact ⟨⟨L', hown, hman⟩, hfew, hfree⟩
      refine ⟨⟨_, hown', hman'⟩, hfew', fun e he hn => (hpool _).mpr ?_⟩
      cases hvt : entryAt t.mem root v with
      | none => exact .inl (hfree e he hvt)
      | some w =>
        -- the page has lost its entry just now
        obtain rfl : w = e := some.inj ((hfew v w hvt).symm.trans he)
        rw [hmem, entryAt_write hown.level (hown.frame hl).last, hvt] at hn
        split_ifs at hn with hwalk
        obtain ⟨l', hl', rfl⟩ := entryAt_some.mp hvt
        obtain rfl := some.inj (hl'.1.symm.trans hwalk)
        exact .inr rfl
  obtain ⟨⟨L', hown, -⟩, -, hfree⟩ := hinv
  have hnone : entryAt (unmapRange root start stop m).mem root v = none :=
    hown.entryAt_none (hD v h₁ h₂) (unmapRange_resolve hs hv h₁ h₂ (by omega) m)
  exact ⟨hnone, fun e he => hfree e he hnone⟩

end Frames

/-! ## The call -/

section Call

variable {P : Type} [CountedPool P] {K : ℕ → Prop} {L : Set Loc} {s : Space P}

/-- The address space is as before; the allocator has lost only frames that are page tables now. -/
structure HeapKept (s t : Space P) : Prop where
  entries : ∀ v, entryAt t.mm.machine.mem s.as.pt v = entryAt s.mm.machine.mem s.as.pt v
  brkEnd : t.as.brkEnd = s.as.brkEnd
  frames : ∀ f, Free t.mm.machine.pool f ↔ Free s.mm.machine.pool f ∧ NoTable s.as.pt t.mm.machine.mem f

def Hole (s : Space P) (start stop v : ℕ) : Prop :=
  v % pageSize = 0 ∧ start ≤ v ∧ v < stop ∧ entryAt s.mm.machine.mem s.as.pt v = none

/-- The heap ends at `newBrk`: the holes below have fresh zeroed frames of their own, the pages above
are unmapped and their frames free. -/
structure HeapMoved (newBrk : ℕ) (s t : Space P) : Prop where
  brkEnd : t.as.brkEnd = newBrk
  fresh : ∀ v, Hole s s.as.brkStart newBrk v → ∃ e, entryAt t.mm.machine.mem s.as.pt v = some e ∧
    Free s.mm.machine.pool (pteTable e) ∧ t.mm.machine.mem (pteTable e) = fun _ => 0#64
  own : ∀ v w e e', Hole s s.as.brkStart newBrk v → Hole s s.as.brkStart newBrk w → v ≠ w →
    entryAt t.mm.machine.mem s.as.pt v = some e → entryAt t.mm.machine.mem s.as.pt w = some e' →
    pteTable e ≠ pteTable e'
  unmapped : ∀ v, v % pageSize = 0 → newBrk ≤ v → v < s.as.brkEnd →
    entryAt t.mm.machine.mem s.as.pt v = none ∧ ∀ e, entryAt s.mm.machine.mem s.as.pt v = some e →
      Free t.mm.machine.pool (pteTable e)

/-- **When the call is all or nothing.** The pages that stay in the heap are mapped, and a growth does
not fail after its first page. -/
def BrkSafe (addr : ℕ) (s : Space P) : Prop :=
  let newBrk := alignUp addr pageSize
  if addr = 0 then ∀ v, ¬ Hole s s.as.brkStart s.as.brkEnd v
  else if newBrk < s.as.brkStart then True
  else if s.as.brkEnd < newBrk then
    ¬ HeapFits s.as.pt s.as.brkEnd s.mm.machine 1 ∨
      (HeapFits s.as.pt s.as.brkEnd s.mm.machine (pageCount s.as.brkEnd newBrk) ∧
        ∀ v, ¬ Hole s s.as.brkStart s.as.brkEnd v)
  else ∀ v, ¬ Hole s s.as.brkStart newBrk v

lemma ne_mapFailed (h : a % pageSize = 0) : a ≠ mapFailed := by
  simp only [pageSize, mapFailed] at *
  omega

variable {t : Space P}

lemma heapMoved_iff_of_fewer (hbrk : t.as.brkEnd = newBrk)
    (hfew : FewerEntries s.as.pt s.mm.machine t.mm.machine)
    (hun : ∀ v, v % pageSize = 0 → newBrk ≤ v → v < s.as.brkEnd →
      entryAt t.mm.machine.mem s.as.pt v = none ∧ ∀ e, entryAt s.mm.machine.mem s.as.pt v = some e →
          Free t.mm.machine.pool (pteTable e)) :
    HeapMoved newBrk s t ↔ ∀ v, ¬ Hole s s.as.brkStart newBrk v := by
  constructor
  · intro h v hv
    obtain ⟨e, he, -⟩ := h.fresh v hv
    have := hfew v e he
    rw [hv.2.2.2] at this
    cases this
  · exact fun h => ⟨hbrk, fun v hv => absurd hv (h v), fun v _ _ _ hv => absurd hv (h v), hun⟩

lemma heapKept_iff {m' : Machine P} (h : SpaceInv K L s) (hK : K 0)
    (hlt : s.as.brkEnd + (n + 1) * pageSize ≤ 2 ^ 64)
    (hr : growHeap s.as.pt (n + 1) s.as.brkEnd s.mm.machine = (false, m')) :
    HeapKept s (s.setMachine m') ↔ ¬ HeapFits s.as.pt s.as.brkEnd s.mm.machine 1 := by
  have hend := h.end_aligned
  rcases growHeap_page h.owns hend hlt hr with ⟨-, hfail⟩ | ⟨m1, g, L1, hnew, hown, ha1, hlt1, hrest⟩
  · refine iff_of_true ⟨hfail.entryAt_eq h.owns, rfl, hfail.free_iff h.owns hK⟩ ?_
    exact hfail.not_fits h.owns hend h.brk_lt
  refine iff_of_false (fun hkept => ?_) (not_not.mpr ?_)
  · -- the first page stays mapped
    have hfirst := growHeap_entry hown ha1 hlt1 hrest (v := s.as.brkEnd)
      (by rw [hnew.entry, if_pos rfl] : entryAt m1.mem s.as.pt s.as.brkEnd = some (heapEntry g))
    have hsame := hkept.entries s.as.brkEnd
    rw [hnew.absent, show (s.setMachine m').mm.machine = m' from rfl, hfirst] at hsame
    cases hsame
  exact (hnew.fits_iff hown.huge).mpr ⟨nofun, nofun, nofun⟩

lemma Grown.heapMoved_iff {frame : ℕ → ℕ} (h : SpaceInv K L s)
    (hg : Grown s.as.pt s.as.brkEnd n frame s.mm.machine t.mm.machine)
    (hfit : HeapFits s.as.pt s.as.brkEnd s.mm.machine n)
    (hn : s.as.brkEnd + n * pageSize = newBrk) (hbrk : t.as.brkEnd = newBrk) :
    HeapMoved newBrk s t ↔ ∀ v, ¬ Hole s s.as.brkStart s.as.brkEnd v := by
  have hend := h.end_aligned
  have hnew : ∀ v, v % pageSize = 0 → s.as.brkEnd ≤ v → v < newBrk →
      ∃ i < n, v = s.as.brkEnd + i * pageSize := by
    intro v hv h₁ h₂
    refine ⟨(v - s.as.brkEnd) / pageSize, ?_, ?_⟩ <;> simp only [pageSize] at * <;> omega
  have hin : ∀ i < n, (s.as.brkEnd + i * pageSize) % pageSize = 0 ∧
      s.as.brkEnd + i * pageSize < newBrk := by
    intro i hi
    simp only [pageSize] at *
    omega
  have hle := h.brk_le
  constructor
  · intro hmoved v hv
    obtain ⟨hal, h₁, h₂, hnone⟩ := hv
    have hhole : Hole s s.as.brkStart newBrk v := ⟨hal, h₁, by omega, hnone⟩
    -- such a page could only share the entry of a new one
    obtain ⟨e, he, -⟩ := hmoved.fresh v hhole
    obtain ⟨i, hi, rfl⟩ := hg.added v e hnone he
    have hpage := hg.entry i hi
    have hlt := hin i hi
    exact hmoved.own v (s.as.brkEnd + i * pageSize) _ _ hhole
      ⟨hlt.1, by omega, hlt.2, hfit.absent i hi⟩ (by omega) he hpage rfl
  intro hall
  have hcase : ∀ v, Hole s s.as.brkStart newBrk v → ∃ i < n, v = s.as.brkEnd + i * pageSize := by
    rintro v ⟨hal, h₁, h₂, hnone⟩
    refine hnew v hal ?_ h₂
    by_contra hlt
    exact hall v ⟨hal, h₁, by omega, hnone⟩
  refine ⟨hbrk, fun v hv => ?_, fun v w e e' hv hw hne he he' => ?_, fun v _ h₁ h₂ => ?_⟩
  · obtain ⟨i, hi, rfl⟩ := hcase v hv
    refine ⟨_, hg.entry i hi, ?_⟩
    rw [hg.table i hi]
    exact ⟨hg.fresh i hi, hg.zero i hi⟩
  · obtain ⟨i, hi, rfl⟩ := hcase v hv
    obtain ⟨j, hj, rfl⟩ := hcase w hw
    obtain rfl := some.inj (he.symm.trans (hg.entry i hi))
    obtain rfl := some.inj (he'.symm.trans (hg.entry j hj))
    rw [hg.table i hi, hg.table j hj]
    rcases Nat.lt_trichotomy i j with hij | rfl | hij
    · exact (hg.inj j hj i hij).symm
    · exact absurd rfl hne
    · exact hg.inj i hi j hij
  · omega

/-- **Main.** For every address space and every requested break: `vmm_brk` is all or nothing exactly
when the pages that stay in the heap are mapped and a growth succeeds or fails at its first page. -/
theorem vmm_brk_atomic_iff (h : SpaceInv K L s) (hK : K 0) (hM : FramesManaged L s.mm.machine) (addr : ℕ) :
    (((vmmBrk addr s).1 = mapFailed → HeapKept s (vmmBrk addr s).2) ∧
      ((vmmBrk addr s).1 ≠ mapFailed → HeapMoved (vmmBrk addr s).1 s (vmmBrk addr s).2)) ↔
    BrkSafe addr s := by
  have hmod := alignUp_mod addr
  have hlt := alignUp_lt addr
  have hend := h.end_aligned
  have hfail : ∀ {a : ℕ} {Q R : Prop}, a % pageSize = 0 →
      ((a = mapFailed → Q) ∧ (a ≠ mapFailed → R) ↔ R) := fun ha =>
    ⟨fun hc => hc.2 (ne_mapFailed ha), fun hR => ⟨fun he => absurd he (ne_mapFailed ha), fun _ => hR⟩⟩
  unfold vmmBrk BrkSafe
  dsimp only
  by_cases h0 : addr = 0
  · rw [if_pos h0, if_pos h0, hfail hend]
    exact heapMoved_iff_of_fewer rfl (fun _ _ h => h) fun v _ h₁ h₂ => by omega
  rw [if_neg h0, if_neg h0]
  by_cases h1 : alignUp addr pageSize < s.as.brkStart
  · rw [if_pos h1, if_pos h1]
    refine iff_of_true ⟨fun _ => ⟨fun _ => rfl, rfl, fun f => ?_⟩, fun hc => absurd rfl hc⟩ trivial
    exact ⟨fun hf => ⟨hf, fun p hp ht => h.owns.used p f hp ht hf⟩, And.left⟩
  rw [if_neg h1, if_neg h1]
  split_ifs with h2
  · have hcount := pageCount_mul hend hmod h2.le
    rcases hr : growHeap s.as.pt (pageCount s.as.brkEnd (alignUp addr pageSize)) s.as.brkEnd
      s.mm.machine with ⟨b, m'⟩
    have hfits := growHeap_iff h.owns hend (by rw [hcount]; exact hlt.le) hr
    obtain ⟨n, hn⟩ : ∃ n, pageCount s.as.brkEnd (alignUp addr pageSize) = n + 1 := by
      refine Nat.exists_eq_succ_of_ne_zero fun hz => ?_
      rw [hz] at hcount
      omega
    cases b with
    | false =>
      rw [hn] at hr hcount hfits
      have hkept := heapKept_iff h hK (by rw [hcount]; exact hlt.le) hr
      have hno : ¬ HeapFits s.as.pt s.as.brkEnd s.mm.machine (n + 1) := fun hc =>
        Bool.false_ne_true (hfits.mpr hc)
      rw [hn]
      refine ⟨fun hc => .inl (hkept.mp (hc.1 rfl)), fun hc => ⟨fun _ => hkept.mpr ?_, fun he => absurd rfl he⟩⟩
      exact hc.resolve_right fun hc => hno hc.1
    | true =>
      obtain ⟨frame, hgrown⟩ := growHeap_new h.owns hend (by rw [hcount]; exact hlt.le) hr
      have hall := hfits.mp rfl
      have hone := hall.mono (j := 1) (by omega)
      refine (hfail hmod).trans ((hgrown.heapMoved_iff h hall hcount rfl).trans ?_)
      exact ⟨fun hc => .inr ⟨hall, hc⟩, fun hc => (hc.resolve_left (not_not.mpr hone)).2⟩
  rw [hfail hmod]
  refine heapMoved_iff_of_fewer rfl (unmapRange_fewer _ _ _ _) fun v hv h₁ h₂ => ?_
  refine unmapRange_frees h.owns hM hmod h.brk_lt.le (fun a ha₁ ha₂ => .inr ⟨?_, ha₂⟩) hv h₁ h₂
  exact (le_of_not_gt h1).trans ha₁

theorem vmm_brk_atomic_iff_small :
    let s : Space PmmPool := ⟨freshAddressSpace 2, (vmmCreateAddressSpace 1 smallMm).2⟩
    SpaceInv (fun f => f = 0) ∅ s ∧
    ((((vmmBrk (userHeapBase + 1) s).1 = mapFailed → HeapKept s (vmmBrk (userHeapBase + 1) s).2) ∧
      ((vmmBrk (userHeapBase + 1) s).1 ≠ mapFailed →
        HeapMoved (vmmBrk (userHeapBase + 1) s).1 s (vmmBrk (userHeapBase + 1) s).2)) ↔
      BrkSafe (userHeapBase + 1) s) := by
  refine ⟨smallMm_owned, ?_⟩
  exact vmm_brk_atomic_iff smallMm_owned rfl (fun l hl => absurd hl (Set.notMem_empty l)) _

/-- Five frames are free and the break is moved by three pages: the call fails, but the first page is
mapped and no frame is free any more. -/
theorem vmm_brk_keeps_pages :
    let s : Space PmmPool := ⟨freshAddressSpace 2, (vmmCreateAddressSpace 1 smallMm).2⟩
    (vmmCreateAddressSpace 1 smallMm).1 = some (freshAddressSpace 2) ∧
      s.mm.machine.pool.1.freePages = 5 ∧ entryAt s.mm.machine.mem 2 userHeapBase = none ∧
      (vmmBrk (userHeapBase + 0x3000) s).1 = mapFailed ∧
      (entryAt (vmmBrk (userHeapBase + 0x3000) s).2.mm.machine.mem 2 userHeapBase).isSome ∧
      (vmmBrk (userHeapBase + 0x3000) s).2.mm.machine.pool.1.freePages = 0 := by
  decide +kernel

lemma vmmBrk_pageSteps (addr : ℕ) (s : Space P) :
    PageSteps s.as.pt (fun _ => True) s.mm.machine (vmmBrk addr s).2.mm.machine := by
  have hstep := vmmBrk_step addr s
  generalize vmmBrk addr s = r at hstep ⊢
  cases hstep with
  | same => exact .refl
  | @grow b m _ _ _ hr =>
    have hpages := growHeap_steps s.as.pt (pageCount s.as.brkEnd (alignUp addr pageSize)) s.as.brkEnd s.mm.machine
    rw [hr] at hpages
    cases b <;> exact hpages.mono fun _ _ => trivial
  | shrink => exact (unmapRange_steps ..).mono fun _ _ => trivial

lemma Returns.pageSteps {ρ : Type} {l : List (ℕ × Area)} {G : Prop} {r : Option (ρ × Space P)}
    (hr : Returns UserPage s l G r) (ht : r.map Prod.snd = some t) :
    PageSteps s.as.pt (fun _ => True) s.mm.machine t.mm.machine := by
  obtain ⟨x, t', l', rfl, -, hstep, -⟩ := hr
  cases ht
  exact hstep.machine.mono fun _ _ => trivial

lemma vmRun_managed (h : SpaceInv K L s) (ht : vmRun ops s = some t)
    (hf : Managed s.mm.machine.pool f) :
    Managed t.mm.machine.pool f := by
  induction ops generalizing s L with
  | nil =>
    cases ht
    exact hf
  | cons op ops ih =>
    obtain ⟨s1, L1, hs1, -, hinv⟩ := exec_owned h op
    rw [vmRun, hs1, bind_some] at ht
    obtain ⟨l, hl⟩ := h.areas
    suffices hsteps : PageSteps s.as.pt (fun _ => True) s.mm.machine s1.mm.machine from
      ih hinv ht (hsteps.managed hf)
    cases op with
    | mmap addr length prot flags file offset =>
      exact Returns.pageSteps (vmmMmap_returns hl addr length prot flags file offset) hs1
    | munmap addr length => exact Returns.pageSteps (vmmMunmap_returns hl addr length True) hs1
    | brk addr =>
      cases hs1
      exact vmmBrk_pageSteps addr s
    | fault addr errorCode =>
      exact Returns.pageSteps (vmmHandlePageFault_returns hl addr errorCode True) hs1

/-- **Every address space** that has been created and used satisfies the hypotheses. -/
theorem created_managed {mm : Mm P} {as : AddressSpace}
    (hk : KernelTable k mm.machine) (hnew : (vmmCreateAddressSpace k mm).1 = some as)
    (ht : vmRun ops ⟨as, (vmmCreateAddressSpace k mm).2⟩ = some t) :
    ∃ (K : ℕ → Prop) (L : Set Loc), SpaceInv K L t ∧ K 0 ∧ FramesManaged L t.mm.machine := by
  -- the frames outside the allocator are out of reach, unless they hold kernel tables
  let K : ℕ → Prop := fun f => f = 0 ∨
    ¬ Managed mm.machine.pool f ∧ NoKernelTable k mm.machine.mem f
  have hK : ∀ f, K f → ¬ Free mm.machine.pool f ∧ NoKernelTable k mm.machine.mem f := by
    rintro f (rfl | ⟨hf, hn⟩)
    · exact ⟨hk.zero, hk.zero_table⟩
    · exact ⟨fun hc => hf (managed_of_free hc), hn⟩
  have hinv := vmmCreateAddressSpace_owned hk hK hnew
  obtain ⟨r, rfl, -, -, hfree, hm, -⟩ := vmmCreateAddressSpace_some hk.self hnew
  obtain ⟨t', L, ht', hreach, hinv'⟩ := vmRun_owned hinv ops
  obtain rfl := some.inj (ht.symm.trans ht')
  refine ⟨K, L, hinv', .inl rfl, fun l hl => vmRun_managed hinv ht ?_⟩
  have hpinned := (hinv'.owns.frame hl).pinned
  by_contra hno
  refine hpinned (.inr ⟨fun hc => hno ?_, fun p hp hkp htab => ?_⟩)
  · show Managed (vmmCreateAddressSpace k mm).2.machine.pool _
    rw [hm]
    exact managed_allocPage hc
  have hstart : tableAt (vmmCreateAddressSpace k mm).2.machine.mem r p =
      some (pteTable (t.mm.machine.mem.read l)) := by
    rw [hm]
    exact tableAt_newPml4_of hk hfree hp hkp htab
  have hlater := hreach.steps.tableAt_mono hinv.owns hp hstart
  refine (hinv'.owns.frame hl).table p hp ?_
  rwa [hreach.pt]

/-- A frame mapped in the user half is the allocator's and in use, holds no page table and is mapped at
one page only. -/
def UserFrames (t : Space P) : Prop := ∀ v e, v < userSpaceEnd → entryAt t.mm.machine.mem t.as.pt v = some e →
  pteTable e ≠ 0 ∧ Managed t.mm.machine.pool (pteTable e) ∧ ¬ Free t.mm.machine.pool (pteTable e) ∧
  NoTable t.as.pt t.mm.machine.mem (pteTable e) ∧ ∀ w e', w < userSpaceEnd →
    entryAt t.mm.machine.mem t.as.pt w = some e' → pteTable e' = pteTable e → w / 4096 = v / 4096

/-- **User memory is private.** -/
theorem user_frames_private {mm : Mm P} {as : AddressSpace} (hk : KernelTable k mm.machine)
    (hnew : (vmmCreateAddressSpace k mm).1 = some as) (ops : List VmOp) :
    ∃ t, vmRun ops ⟨as, (vmmCreateAddressSpace k mm).2⟩ = some t ∧ UserFrames t := by
  obtain ⟨t, -, ht, -⟩ := vmRun_owned (vmmCreateAddressSpace_owned (K := (· = 0)) hk
    (by rintro _ rfl; exact ⟨hk.zero, hk.zero_table⟩) hnew) ops
  obtain ⟨K, L, h, -, hM⟩ := created_managed hk hnew ht
  have huser : ∀ v, v < userSpaceEnd → v < 2 ^ 48 ∧ pml4Index v < 256 := fun v hv => by
    simp only [userSpaceEnd, pml4Index, tableIndex_eq] at *
    omega
  refine ⟨t, ht, fun v e hv he => ?_⟩
  obtain ⟨l, hl, rfl⟩ := entryAt_some.mp he
  have hmem := h.owns.cover v (.inl (huser v hv).2) l hl
  refine ⟨(h.owns.frame hmem).ne, hM l hmem, (h.owns.frame hmem).used, (h.owns.frame hmem).table, ?_⟩
  intro w e' hw he' hframe
  obtain ⟨l', hl', rfl⟩ := entryAt_some.mp he'
  -- one frame is one entry, and an entry of the user half belongs to one page
  obtain rfl := h.owns.frame_inj l' (h.owns.cover w (.inl (huser w hw).2) l' hl') l hmem hframe
  rcases walkLoc_halfSep h.owns.level h.owns.half (h.owns.frame hmem).last hl'.1 hl.1 with ⟨hp, hi⟩ | ⟨h1, -⟩
  · exact page_eq_of_indices (huser w hw).1 (huser v hv).1 hp hi
  · exact absurd (huser w hw).2 (by omega)

end Call

theorem mapped_frames_private : ∃ t, vmRun [.mmap 0 0x3000 protWrite mapAnonymous 0 0, .fault 0x10001000 2]
    ⟨freshAddressSpace 2, (vmmCreateAddressSpace 1 smallMm).2⟩ = some t ∧ UserFrames t :=
  user_frames_private smallMachine_kernelTable (by decide +kernel) _

end Obelisk
