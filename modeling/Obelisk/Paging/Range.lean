import Obelisk.Paging.Needed
import Obelisk.Paging.Refine

/-!
# Mapping a range

`mmu_map_range` maps page after page, passes over pages that are mapped already, and unmaps what lies
before a page for which there is no frame left.
-/

namespace Obelisk

open KLib Finset Option FramePool

variable {P : Type} [FramePool P] {l : Loc} {c' i j n size v : ℕ}
variable {k phys root virt : ℕ} {m m' m₀ : Machine P} {flags : BitVec 64}

def mmuUnmapRange (root virt size : ℕ) (m : Machine P) : Machine P :=
  forRange (fun i m => (mmuUnmap root (u64 (virt + i * pageSize)) m).2) 0 (alignUp size pageSize / pageSize) m

def mmuMapRangeLoop (root virt phys : ℕ) (flags : BitVec 64) : ℕ → ℕ → Machine P → ℤ × Machine P
  | 0, _, m => (0, m)
  | n + 1, offset, m =>
    let (ret, m) := mmuMap root (u64 (virt + offset)) (u64 (phys + offset)) flags m
    if ret ≠ 0 ∧ ret ≠ -eEXIST then (ret, mmuUnmapRange root virt offset m)
    else mmuMapRangeLoop root virt phys flags n (offset + pageSize) m

def mmuMapRange (root virt phys size : ℕ) (flags : BitVec 64) (m : Machine P) : ℤ × Machine P :=
  let size := alignUp size pageSize
  mmuMapRangeLoop root virt phys flags (size / pageSize) 0 m

/-- A page table without huge pages. -/
structure PlainTable (root : ℕ) (m : Machine P) : Prop where
  used : TablesUsed root m
  level : LevelSep root m.mem
  no_huge : ∀ p f i, IsPath (p ++ [i]) → p ≠ [] → tableAt m.mem root p = some f → pteIsHuge (m.mem f i) = false

namespace PlainTable

variable {root : ℕ} {m m' : Machine P} (h : PlainTable root m)
include h

lemma huge : HugePresent root m.mem := fun p f i hp h0 hf hh => by
  rw [h.no_huge p f i hp h0 hf] at hh
  cases hh

lemma lastLevel (hl : walkLoc m.mem root virt = some l) : LastLevel root m.mem l := by
  rcases walkFrom_cases hl with ⟨p, hp, hne, hpt, hh⟩ | hlast
  · have hp0 : p ≠ [] := by rintro rfl; cases hne
    rw [h.no_huge p l.1 l.2 (isPath_initial hp) hp0 hpt] at hh
    cases hh
  · exact ⟨pathOf virt, isPath_pathOf virt, rfl, hlast.1⟩

lemma newTable {p : List ℕ} {f g : ℕ} (hn : NewTable root p f i g m m') : PlainTable root m' := by
  refine ⟨hn.tablesUsed h.used, hn.sep h.used (fun p q i e => by simp [e]) h.level, fun q t j hq h0 hqt => ?_⟩
  rcases hn.tableAt_cases h.used hq.left hqt with hold | ⟨rfl, -⟩
  · by_cases he : (t, j) = (f, i)
    · cases he
      simpa using (nextTable_some.mp (hn.next_self false)).2.1
    · rw [hn.mem_of_ne h.used hq.left hold he]
      exact h.no_huge q t j hq h0 hold
  rw [hn.mem_new h.used]
  exact pteIsHuge_zero

lemma builds (hb : Builds root virt k m m') : PlainTable root m' := by
  induction hb with
  | refl => exact h
  | table _ _ hn ih => exact (ih h).newTable hn

lemma write (hl : LastLevel root m.mem l) (w : BitVec 64) :
    PlainTable root { m with mem := m.mem.write l w } := by
  refine ⟨h.used.write h.level hl w, sep_write h.level hl w h.level, fun p f i hp h0 hf => ?_⟩
  have hold := tableAt_write h.level hl w hp.left
  rw [hold] at hf
  have hsame : m.mem.write l w f i = m.mem f i := write_upper h.level hl w p f i hp hf
  show pteIsHuge (m.mem.write l w f i) = false
  rw [hsame]
  exact h.no_huge p f i hp h0 hf

lemma allocPage : PlainTable root { m with pool := (allocPage m.pool).2 } :=
  ⟨fun p f hp hf hfree => h.used p f hp hf (allocPage_mono hfree), h.level, h.no_huge⟩

end PlainTable

def pageAt (virt j : ℕ) : ℕ := alignDown (u64 (virt + j * pageSize)) pageSize

def entryFor (phys : ℕ) (flags : BitVec 64) (j : ℕ) : BitVec 64 :=
  pteMake (pageAt phys j) (flags ||| ptePresent)

def firstPages (virt k : ℕ) : Finset ℕ := (range k).image (pageAt virt)

lemma mem_firstPages : v ∈ firstPages virt k ↔ ∃ j < k, pageAt virt j = v := by
  simp [firstPages]

def added (mem : PhysMem) (root virt phys : ℕ) (flags : BitVec 64) (x : ℕ) : ℕ → Option (BitVec 64)
  | 0 => none
  | k + 1 => (added mem root virt phys flags x k).or
      (if leafKey mem root x = leafKey mem root (pageAt virt k) then some (entryFor phys flags k)
        else none)

section Added

variable {mem : PhysMem} {root virt phys : ℕ} {flags : BitVec 64} {x : ℕ}

lemma added_eq_none_iff : added mem root virt phys flags x k = none ↔
    ∀ j < k, leafKey mem root x ≠ leafKey mem root (pageAt virt j) := by
  induction k with
  | zero => simp [added]
  | succ k ih =>
    rw [added, or_eq_none_iff, ih, Nat.forall_lt_succ_right]
    simp

lemma added_eq_some (hj : j < k) (hd : ∀ i < k,
      leafKey mem root (pageAt virt i) = leafKey mem root (pageAt virt j) → i = j) :
    added mem root virt phys flags (pageAt virt j) k = some (entryFor phys flags j) := by
  induction k with
  | zero => exact absurd hj (Nat.not_lt_zero j)
  | succ k ih =>
    rw [added]
    rcases Nat.lt_succ_iff_lt_or_eq.mp hj with hlt | rfl
    · rw [ih hlt fun i hi => hd i (by omega), some_or]
    have hnone : added mem root virt phys flags (pageAt virt j) j = none :=
      added_eq_none_iff.mpr fun i hi he => absurd (hd i (by omega) he.symm) (by omega)
    rw [hnone, none_or, if_pos rfl]

end Added

/-- After `k` pages of `mmu_map_range`. -/
structure RangeInv (root virt phys : ℕ) (flags : BitVec 64) (m₀ : Machine P) (k : ℕ)
    (m : Machine P) : Prop where
  plain : PlainTable root m
  pool : ∃ c, m.pool = FramePool.takes c m₀.pool ∧ Supplies c m₀.pool ∧
    ∀ S, firstPages virt k ⊆ S → (needed m.mem root S).card + c = (needed m₀.mem root S).card
  keys : ∀ x y, leafKey m.mem root x = leafKey m.mem root y ↔ leafKey m₀.mem root x = leafKey m₀.mem root y
  entry : ∀ x, entryAt m.mem root x = (entryAt m₀.mem root x).or (added m₀.mem root virt phys flags x k)

def TablesFit (root virt : ℕ) (m : Machine P) (k : ℕ) : Prop :=
  Supplies (needed m.mem root (firstPages virt k)).card m.pool

instance (root virt : ℕ) (m : Machine P) (k : ℕ) : Decidable (TablesFit root virt m k) :=
  inferInstanceAs (Decidable (Supplies ..))

lemma TablesFit.mono (h : TablesFit root virt m k) (hjk : j ≤ k) : TablesFit root virt m j :=
  Supplies.mono h (card_le_card (biUnion_subset_biUnion_of_subset_left _ (image_subset_image (range_mono hjk))))

section Loop

variable {root virt phys : ℕ} {flags : BitVec 64} {m₀ m : Machine P} {k : ℕ}

lemma RangeInv.zero (h : PlainTable root m₀) : RangeInv root virt phys flags m₀ 0 m₀ :=
  ⟨h, ⟨0, rfl, nofun, fun _ _ => rfl⟩, fun _ _ => .rfl,
    fun _ => (or_none).symm⟩

section

variable (h : RangeInv root virt phys flags m₀ k m)
include h

lemma RangeInv.mapped (hj : j < k) : entryAt m.mem root (pageAt virt j) ≠ none := by
  rw [h.entry, Ne, or_eq_none_iff, added_eq_none_iff]
  exact fun hc => hc.2 j hj rfl

lemma RangeInv.fits : TablesFit root virt m₀ k := by
  obtain ⟨c, -, hsup, hcard⟩ := h.pool
  have hnone : needed m.mem root (firstPages virt k) = ∅ := by
    refine eq_empty_of_forall_notMem fun key hkey => ?_
    obtain ⟨v, hv, hkey⟩ := mem_biUnion.mp hkey
    obtain ⟨j, hj, rfl⟩ := mem_firstPages.mp hv
    have hwalk := (walkLoc_eq_none_iff h.plain.huge).mpr (ne_empty_of_mem hkey)
    exact h.mapped hj (by rw [entryAt, hwalk]; rfl)
  have hc := hcard _ (Subset.refl _)
  rw [hnone, card_empty, zero_add] at hc
  rwa [TablesFit, ← hc]

lemma RangeInv.taken (hb : Builds root (pageAt virt k) c' m m') :
    ∃ c, m'.pool = FramePool.takes c m₀.pool ∧ Supplies c m₀.pool ∧ ∀ S, firstPages virt (k + 1) ⊆ S →
        (needed m'.mem root S).card + c = (needed m₀.mem root S).card := by
  obtain ⟨c, hpool, hsup, hcard⟩ := h.pool
  obtain ⟨hpool', hsup'⟩ := hb.pool_eq
  refine ⟨c + c', ?_, supplies_add.mpr ⟨hsup, hpool ▸ hsup'⟩, fun S hS => ?_⟩
  · rw [hpool', hpool, takes_add]
  have hsub : firstPages virt k ⊆ S := fun v hv => by
    obtain ⟨j, hj, rfl⟩ := mem_firstPages.mp hv
    exact hS (mem_firstPages.mpr ⟨j, by omega, rfl⟩)
  have hmem : pageAt virt k ∈ S := hS (mem_firstPages.mpr ⟨k, by omega, rfl⟩)
  have h1 := hcard S hsub
  have h2 := hb.card_needed h.plain.used hmem
  omega

lemma RangeInv.walked (hb : Builds root (pageAt virt k) c' m m') :
    PlainTable root m' ∧ (∀ x y, leafKey m'.mem root x = leafKey m'.mem root y ↔
      leafKey m₀.mem root x = leafKey m₀.mem root y) ∧
      ∀ x, entryAt m'.mem root x = (entryAt m₀.mem root x).or (added m₀.mem root virt phys flags x k) :=
  ⟨h.plain.builds hb, fun x y => (hb.leafKey_iff h.plain.used h.plain.level x y).trans (h.keys x y),
    fun x => (hb.toExtends.entryAt_eq h.plain.used h.plain.level x).trans (h.entry x)⟩

lemma RangeInv.step {ret : ℤ}
    (hr : mmuMap root (u64 (virt + k * pageSize)) (u64 (phys + k * pageSize)) flags m = (ret, m')) :
    ((ret = 0 ∨ ret = -eEXIST) ∧ RangeInv root virt phys flags m₀ (k + 1) m') ∨
    (ret = -eNOMEM ∧ ¬ TablesFit root virt m₀ (k + 1) ∧ PlainTable root m' ∧
      (∀ x y, leafKey m'.mem root x = leafKey m'.mem root y ↔ leafKey m₀.mem root x = leafKey m₀.mem root y) ∧
      ∀ x, entryAt m'.mem root x =
        (entryAt m₀.mem root x).or (added m₀.mem root virt phys flags x k)) := by
  have hres : MapBuilds root (pageAt virt k) (entryFor phys flags k) m _ _ :=
    mmuMap_builds (u64 (virt + k * pageSize)) (u64 (phys + k * pageSize)) flags h.plain.used
  rw [hr] at hres
  generalize hw : entryFor phys flags k = w at hres
  have hpres : pteIsPresent w = true := hw ▸ pteIsPresent_make _ _
  dsimp only at hres
  cases hres with
  | @noMem c' m1 hb hwalk hz =>
    obtain ⟨hplain, hkeys, hentry⟩ := h.walked hb
    refine .inr ⟨rfl, ?_, hplain.allocPage, hkeys, hentry⟩
    obtain ⟨c, hpool, -, hcard⟩ := h.taken hb
    have hneed := (walkLoc_eq_none_iff hplain.huge).mp hwalk
    have hpos : 0 < (needed m1.mem root (firstPages virt (k + 1))).card := by
      obtain ⟨key, hkey⟩ := nonempty_iff_ne_empty.mpr hneed
      exact card_pos.mpr ⟨key, mem_biUnion.mpr ⟨_, mem_firstPages.mpr ⟨k, by omega, rfl⟩, hkey⟩⟩
    have hc := hcard _ (Subset.refl _)
    rw [hpool] at hz
    exact not_supplies hz (by omega)
  | @exist c' _ e hb he =>
    obtain ⟨hplain, hkeys, hentry⟩ := h.walked hb
    refine .inl ⟨.inr rfl, hplain, h.taken hb, hkeys, fun x => ?_⟩
    rw [added, ← Option.or_assoc, ← hentry]
    split_ifs with hk
    · rw [entryAt_of_key ((hkeys ..).mpr hk), he, some_or]
    · rw [or_none]
  | @ok c' m1 l hb hl habs =>
    obtain ⟨hplain, hkeys, hentry⟩ := h.walked hb
    have hlast := hplain.lastLevel hl
    have hupper := write_upper hplain.level hlast w
    have hkey : ∀ x, leafKey (m1.mem.write l w) root x = leafKey m1.mem root x :=
      leafKey_congr hupper
    obtain ⟨c, hpool, hsup, hcard⟩ := h.taken hb
    refine .inl ⟨.inl rfl, hplain.write hlast w, ⟨c, hpool, hsup, fun S hS => ?_⟩, fun x y => ?_, fun x => ?_⟩
    · show (needed (m1.mem.write l w) root S).card + c = _
      rw [needed_congr hupper]
      exact hcard S hS
    · show leafKey (m1.mem.write l w) root x = leafKey (m1.mem.write l w) root y ↔ _
      rw [hkey, hkey]
      exact hkeys x y
    show entryAt (m1.mem.write l w) root x = _
    have hsame : walkLoc m1.mem root x = some l ↔
        leafKey m₀.mem root x = leafKey m₀.mem root (pageAt virt k) := by
      rw [walkLoc_iff_leafKey hplain.level hlast, ← hkeys, (walkLoc_iff_leafKey hplain.level hlast).mp hl]
    rw [entryAt_write hplain.level hlast, hpres, if_pos rfl, added, ← Option.or_assoc, ← hentry]
    by_cases hk : walkLoc m1.mem root x = some l
    · have hnone : entryAt m1.mem root x = none := by
        rw [entryAt, hk, bind_some, habs]
        rfl
      rw [if_pos hk, if_pos (hsame.mp hk), hnone, none_or, hw]
    · rw [if_neg hk, if_neg fun h' => hk (hsame.mpr h'), or_none]

end

end Loop

lemma alignUp_pages (hk : k < 2 ^ 52) : alignUp (k * pageSize) pageSize / pageSize = k := by
  have h := alignUp_two_pow (x := k * 4096) (k := 12) (by omega) (by norm_num)
  rw [show pageSize = 2 ^ 12 from rfl, show (2 : ℕ) ^ 12 = 4096 by norm_num] at *
  rw [h]
  omega

lemma PlainTable.unmap (h : PlainTable root m) : PlainTable root (mmuUnmap root v m).2 ∧
      (∀ x, leafKey (mmuUnmap root v m).2.mem root x = leafKey m.mem root x) ∧
      ∀ x, entryAt (mmuUnmap root v m).2.mem root x =
        if leafKey m.mem root x = leafKey m.mem root (alignDown v pageSize) then none
        else entryAt m.mem root x := by
  rw [mmuUnmap_eq]
  -- without a present entry nothing changes
  have hsame : entryAt m.mem root (alignDown v pageSize) = none →
      PlainTable root m ∧ (∀ x, leafKey m.mem root x = leafKey m.mem root x) ∧ ∀ x, entryAt m.mem root x =
          if leafKey m.mem root x = leafKey m.mem root (alignDown v pageSize) then none
          else entryAt m.mem root x := by
    refine fun hnone => ⟨h, fun _ => rfl, fun x => ?_⟩
    split_ifs with hk
    · rw [entryAt_of_key hk, hnone]
    · rfl
  cases hl : walkLoc m.mem root (alignDown v pageSize) with
  | none => exact hsame (by rw [entryAt, hl]; rfl)
  | some l =>
    dsimp only
    split_ifs with hp
    · have hlast := h.lastLevel hl
      refine ⟨h.write hlast _, leafKey_congr (write_upper h.level hlast _), fun x => ?_⟩
      show entryAt (m.mem.write l 0#64) root x = _
      rw [entryAt_write h.level hlast, pteIsPresent_zero, if_neg Bool.false_ne_true]
      refine if_congr ?_ rfl rfl
      rw [walkLoc_iff_leafKey h.level hlast, (walkLoc_iff_leafKey h.level hlast).mp hl]
    refine hsame ?_
    rw [entryAt, hl, bind_some, if_neg hp]

lemma mmuUnmapRange_entry (h : PlainTable root m)
    (hk : k < 2 ^ 52) (x : ℕ) : entryAt (mmuUnmapRange root virt (k * pageSize) m).mem root x =
      if ∃ j < k, leafKey m.mem root x = leafKey m.mem root (pageAt virt j) then none
      else entryAt m.mem root x := by
  rw [mmuUnmapRange, alignUp_pages hk]
  have hinv := forRange_inv (i := 0) (n := k) (s := m)
    (f := fun i m => (mmuUnmap root (u64 (virt + i * pageSize)) m).2)
    (fun i (t : Machine P) => PlainTable root t ∧
      (∀ x, leafKey t.mem root x = leafKey m.mem root x) ∧ ∀ x, entryAt t.mem root x =
        if ∃ j < i, leafKey m.mem root x = leafKey m.mem root (pageAt virt j) then none
        else entryAt m.mem root x)
    ⟨h, fun _ => rfl, fun x => (if_neg (by simp)).symm⟩ fun i t _ _ ⟨hplain, hkey, hentry⟩ => by
      obtain ⟨hplain', hkey', hentry'⟩ := hplain.unmap (v := u64 (virt + i * pageSize))
      refine ⟨hplain', fun x => (hkey' x).trans (hkey x), fun x => ?_⟩
      rw [hentry', hkey, hkey, hentry]
      show (if leafKey m.mem root x = leafKey m.mem root (pageAt virt i) then _ else _) = _
      by_cases hx : leafKey m.mem root x = leafKey m.mem root (pageAt virt i)
      · rw [if_pos hx, if_pos ⟨i, by omega, hx⟩]
      rw [if_neg hx]
      refine if_congr ⟨fun ⟨j, hj, he⟩ => ⟨j, by omega, he⟩, fun ⟨j, hj, he⟩ => ⟨j, ?_, he⟩⟩ rfl rfl
      rcases Nat.lt_succ_iff_lt_or_eq.mp hj with hj | rfl
      · exact hj
      · exact absurd he hx
  rw [zero_add] at hinv
  exact hinv.2.2 x

lemma mmuMapRangeLoop_spec (h : RangeInv root virt phys flags m₀ k m) (hn : k + n < 2 ^ 52) :
    ((mmuMapRangeLoop root virt phys flags n (k * pageSize) m).1 = 0 ∧ RangeInv root virt phys flags
      m₀ (k + n) (mmuMapRangeLoop root virt phys flags n (k * pageSize) m).2) ∨
    ∃ j < k + n, (mmuMapRangeLoop root virt phys flags n (k * pageSize) m).1 = -eNOMEM ∧
      TablesFit root virt m₀ j ∧ ¬ TablesFit root virt m₀ (j + 1) ∧
      ∀ x, entryAt (mmuMapRangeLoop root virt phys flags n (k * pageSize) m).2.mem root x =
        if ∃ i < j, leafKey m₀.mem root x = leafKey m₀.mem root (pageAt virt i) then none
        else entryAt m₀.mem root x := by
  induction n generalizing k m with
  | zero => exact .inl ⟨rfl, h⟩
  | succ n ih =>
    rcases hr : mmuMap root (u64 (virt + k * pageSize)) (u64 (phys + k * pageSize)) flags m with ⟨ret, m'⟩
    rw [mmuMapRangeLoop, hr]
    dsimp only
    rcases h.step hr with ⟨hret, hnext⟩ | ⟨rfl, hfit, hplain, hkeys, hentry⟩
    · have hgo : ¬ (ret ≠ 0 ∧ ret ≠ -eEXIST) := fun hc => hret.elim hc.1 hc.2
      rw [if_neg hgo, show k * pageSize + pageSize = (k + 1) * pageSize by rw [add_mul, one_mul],
        show k + (n + 1) = k + 1 + n by omega]
      exact ih hnext (by omega)
    rw [if_pos (by decide)]
    refine .inr ⟨k, by omega, rfl, h.fits, hfit, fun x => ?_⟩
    rw [mmuUnmapRange_entry hplain (by omega)]
    simp only [hkeys]
    split_ifs with hx
    · rfl
    have hnone : added m₀.mem root virt phys flags x k = none :=
      added_eq_none_iff.mpr fun j hj he => hx ⟨j, hj, he⟩
    rw [hentry, hnone, or_none]

/-! ## The call -/

def rangePages (size : ℕ) : ℕ := (size + (pageSize - 1)) / pageSize

def Translates (mem : PhysMem) (root virt phys j : ℕ) : Prop :=
  ∃ e, entryAt mem root (u64 (virt + j * pageSize)) = some e ∧ pteGetFrame e = pageAt phys j

/-- The page is mapped to its frame, or it is not mapped and the entry that would be written has the
frame. -/
def PageFits (mem : PhysMem) (root virt phys : ℕ) (flags : BitVec 64) (j : ℕ) : Prop :=
  pteGetFrame ((entryAt mem root (pageAt virt j)).getD (entryFor phys flags j)) = pageAt phys j

instance (mem : PhysMem) (root virt phys : ℕ) (flags : BitVec 64) (j : ℕ) :
    Decidable (PageFits mem root virt phys flags j) := inferInstanceAs (Decidable (_ = _))

/-- **What the call needs to be atomic**: its size can be rounded up; if there are frames for all
tables, no two pages share an entry and every page fits; if the frames end at a page, the pages before
it are not mapped. -/
structure RangeFits (root virt phys size : ℕ) (flags : BitVec 64) (m : Machine P) : Prop where
  round : size + (pageSize - 1) < 2 ^ 64
  own : TablesFit root virt m (rangePages size) → ∀ i < rangePages size, ∀ j < rangePages size,
    leafKey m.mem root (pageAt virt i) = leafKey m.mem root (pageAt virt j) → i = j
  pages : TablesFit root virt m (rangePages size) → ∀ j < rangePages size, PageFits m.mem root virt phys flags j
  back : ∀ k < rangePages size, TablesFit root virt m k → ¬ TablesFit root virt m (k + 1) →
    ∀ j < k, entryAt m.mem root (pageAt virt j) = none

lemma pageAt_eq (v j : ℕ) : pageAt v j = (v / 4096 + j) % 2 ^ 52 * 4096 := by
  rw [pageAt, show pageSize = 2 ^ 12 from rfl, alignDown_two_pow (u64_lt _) (by norm_num), u64]
  omega

lemma pageAt_inj (hi : i < 2 ^ 52) (hj : j < 2 ^ 52) (h : pageAt v i = pageAt v j) : i = j := by
  rw [pageAt_eq, pageAt_eq] at h
  omega

lemma entryAt_pageAt (mem : PhysMem) (root virt j : ℕ) :
    entryAt mem root (u64 (virt + j * pageSize)) = entryAt mem root (pageAt virt j) :=
  (entryAt_page (alignDown_page (u64_lt _)) mem root).symm

lemma entryAt_wrap (mem : PhysMem) (root virt j : ℕ) :
    entryAt mem root (pageAt virt (j + 2 ^ 36)) = entryAt mem root (pageAt virt j) := by
  have hidx : ∀ s ≤ 39, tableIndex s (pageAt virt (j + 2 ^ 36)) = tableIndex s (pageAt virt j) := by
    intro s hs
    have hmod : pageAt virt (j + 2 ^ 36) % 2 ^ 48 = pageAt virt j % 2 ^ 48 := by
      rw [pageAt_eq, pageAt_eq]
      omega
    have hlow : ∀ v, v / 2 ^ s % 2 ^ 9 = v % 2 ^ 48 / 2 ^ s % 2 ^ 9 := fun v => by
      rw [← Nat.mod_mul_right_div_self, ← Nat.mod_mul_right_div_self, ← pow_add,
        Nat.mod_mod_of_dvd _ (pow_dvd_pow 2 (by omega))]
    rw [tableIndex_eq, tableIndex_eq, show 512 = 2 ^ 9 by norm_num, hlow, hmod, ← hlow]
  unfold entryAt walkLoc pathOf pml4Index pdptIndex pdIndex ptIndex
  rw [hidx 39 (by norm_num), hidx 30 (by norm_num), hidx 21 (by norm_num), hidx 12 (by norm_num)]

lemma mmuMapRange_wrap (m : Machine P) (hlt : size < 2 ^ 64) (hw : 2 ^ 64 ≤ size + (pageSize - 1)) :
    mmuMapRange root virt phys size flags m = (0, m) := by
  have hzero : alignUp size pageSize = 0 := by
    simp only [pageSize] at hw
    rw [alignUp, show pageSize = 2 ^ 12 from rfl, alignDown_two_pow (u64_lt _) (by norm_num), u64]
    omega
  rw [mmuMapRange, hzero]
  rfl

lemma mmuMapRange_eq (m : Machine P)
    (hw : size + (pageSize - 1) < 2 ^ 64) : mmuMapRange root virt phys size flags m =
      mmuMapRangeLoop root virt phys flags (rangePages size) (0 * pageSize) m := by
  have hround := alignUp_two_pow (x := size) (k := 12) hw (by norm_num)
  rw [mmuMapRange, show alignUp size pageSize = alignUp size (2 ^ 12) from rfl, hround, rangePages, zero_mul]
  simp only [pageSize]
  norm_num

lemma RangeInv.translates_iff (h : RangeInv root virt phys flags m₀ n m) (hn : n < 2 ^ 52) :
    (∀ j < n, Translates m.mem root virt phys j) ↔ (∀ i < n, ∀ j < n,
        leafKey m₀.mem root (pageAt virt i) = leafKey m₀.mem root (pageAt virt j) → i = j) ∧
      ∀ j < n, PageFits m₀.mem root virt phys flags j := by
  have hentry : (∀ i < n, ∀ j < n,
        leafKey m₀.mem root (pageAt virt i) = leafKey m₀.mem root (pageAt virt j) → i = j) →
      ∀ j < n, entryAt m.mem root (pageAt virt j) =
        some ((entryAt m₀.mem root (pageAt virt j)).getD (entryFor phys flags j)) := by
    intro hown j hj
    rw [h.entry, added_eq_some hj fun i hi => hown i hi j hj]
    cases entryAt m₀.mem root (pageAt virt j) <;> rfl
  constructor
  · intro ht
    have hown : ∀ i < n, ∀ j < n,
        leafKey m₀.mem root (pageAt virt i) = leafKey m₀.mem root (pageAt virt j) → i = j := by
      intro i hi j hj hk
      obtain ⟨e, he, hfe⟩ := ht i hi
      obtain ⟨e', he', hfe'⟩ := ht j hj
      rw [entryAt_pageAt] at he he'
      rw [entryAt_of_key ((h.keys ..).mpr hk), he'] at he
      rw [← some.inj he] at hfe
      exact pageAt_inj (by omega) (by omega) (hfe.symm.trans hfe')
    refine ⟨hown, fun j hj => ?_⟩
    obtain ⟨e, he, hfe⟩ := ht j hj
    rw [entryAt_pageAt, hentry hown j hj] at he
    rwa [PageFits, some.inj he]
  rintro ⟨hown, hfit⟩ j hj
  exact ⟨_, by rw [entryAt_pageAt]; exact hentry hown j hj, hfit j hj⟩

/-- **Main.** For a page table without huge entries: `mmu_map_range` leaves every translation as it was
when it fails and translates every page of the range to its frame when it succeeds, exactly if
`RangeFits`. -/
theorem mmu_map_range_iff {root : ℕ} {m : Machine P} (h : PlainTable root m) (virt phys : ℕ) {size : ℕ}
    (flags : BitVec 64) (hsize : size < 2 ^ 64) :
    (((mmuMapRange root virt phys size flags m).1 ≠ 0 →
        ∀ v, entryAt (mmuMapRange root virt phys size flags m).2.mem root v = entryAt m.mem root v) ∧
      ((mmuMapRange root virt phys size flags m).1 = 0 → ∀ j < rangePages size,
        Translates (mmuMapRange root virt phys size flags m).2.mem root virt phys j)) ↔
    RangeFits root virt phys size flags m := by
  by_cases hw : size + (pageSize - 1) < 2 ^ 64
  swap
  · -- the call does nothing, and no page table has that many pages
    rw [mmuMapRange_wrap m hsize (by omega)]
    refine iff_of_false (fun hclaim => ?_) fun hfit => hw hfit.round
    have hn : 2 ^ 36 < rangePages size := by
      simp only [rangePages, pageSize] at hw ⊢
      omega
    obtain ⟨e, he, hfe⟩ := hclaim.2 rfl 0 (by omega)
    obtain ⟨e', he', hfe'⟩ := hclaim.2 rfl (0 + 2 ^ 36) (by omega)
    rw [entryAt_pageAt, entryAt_wrap, ← entryAt_pageAt, he] at he'
    rw [← some.inj he', hfe] at hfe'
    exact absurd (pageAt_inj (by norm_num) (by norm_num) hfe') (by norm_num)
  have hn : rangePages size < 2 ^ 52 := by
    simp only [rangePages, pageSize] at hw ⊢
    omega
  rw [mmuMapRange_eq m hw]
  have hstart : RangeInv root virt phys flags m 0 m := .zero h
  rcases mmuMapRangeLoop_spec (n := rangePages size) hstart (by omega) with
    ⟨hret, hinv⟩ | ⟨k, hk, hret, hfit, hnot, hentry⟩
  · rw [zero_add] at hinv
    have hfits := hinv.fits
    rw [hret]
    constructor
    · intro hclaim
      obtain ⟨hown, hpages⟩ := (hinv.translates_iff hn).mp (hclaim.2 rfl)
      exact ⟨hw, fun _ => hown, fun _ => hpages, fun k hk _ hnot => absurd (hfits.mono hk) hnot⟩
    intro hf
    exact ⟨fun hne => absurd rfl hne, fun _ => (hinv.translates_iff hn).mpr ⟨hf.own hfits, hf.pages hfits⟩⟩
  rw [zero_add] at hk
  rw [hret]
  have hno : ¬ TablesFit root virt m (rangePages size) := fun hall => hnot (hall.mono hk)
  constructor
  · intro hclaim
    refine ⟨hw, fun hall => absurd hall hno, fun hall => absurd hall hno, fun k' hk' hfit' hnot' j hj => ?_⟩
    have hkk : k' = k := by
      rcases Nat.lt_trichotomy k' k with hlt | rfl | hlt
      · exact absurd (hfit.mono hlt) hnot'
      · rfl
      · exact absurd (hfit'.mono hlt) hnot
    rw [← hclaim.1 (by decide), hentry, if_pos ⟨j, hkk ▸ hj, rfl⟩]
  intro hf
  refine ⟨fun _ v => ?_, fun h0 => absurd h0 (by decide)⟩
  rw [hentry]
  split_ifs with hv
  · obtain ⟨j, hj, he⟩ := hv
    rw [entryAt_of_key he, hf.back k hk hfit hnot j hj]
  · rfl

lemma PtInv.plain (h : PtInv root m) : PlainTable root m :=
  ⟨h.used, h.tree.levelSep, h.tree.no_huge⟩

theorem mmu_map_range_iff_small : RangeFits 1 0x401000 0x5000 0x1234 pteUser smallMachine ∧
      ∀ j < 2, Translates (mmuMapRange 1 0x401000 0x5000 0x1234 pteUser smallMachine).2.mem 1
        0x401000 0x5000 j := by
  have hplain : PlainTable 1 smallMachine := PtInv.plain ⟨smallMachine_tree, smallMachine_used⟩
  have hfits : RangeFits 1 0x401000 0x5000 0x1234 pteUser smallMachine := by
    refine ⟨by decide, fun _ => by decide +kernel, fun _ => by decide +kernel, fun k hk _ hnot => ?_⟩
    have hall : TablesFit 1 0x401000 smallMachine 2 := by decide +kernel
    exact absurd (hall.mono (show k + 1 ≤ 2 from hk)) hnot
  exact ⟨hfits, ((mmu_map_range_iff hplain 0x401000 0x5000 pteUser (by decide)).mpr hfits).2 (by decide +kernel)⟩

def edgeMachine : Machine PmmPool := (mmuMap 1 0x1ff000 0x5000 pteUser smallMachine).2

def fullMachine : Machine PmmPool := { edgeMachine with pool := FramePool.takes 3 edgeMachine.pool }

/-- A page that is mapped already keeps its frame although the call succeeds, and loses it when the
call fails at the next page. -/
theorem mmu_map_range_not_atomic :
    (PlainTable 1 edgeMachine ∧ (mmuMapRange 1 0x1ff000 0x9000 0x1000 pteUser edgeMachine).1 = 0 ∧
      mmuResolve 1 0x1ff000 (mmuMapRange 1 0x1ff000 0x9000 0x1000 pteUser edgeMachine).2 = 0x5000) ∧
    (PlainTable 1 fullMachine ∧ (mmuMapRange 1 0x1ff000 0x9000 0x2000 pteUser fullMachine).1 = -eNOMEM ∧
      mmuResolve 1 0x1ff000 fullMachine = 0x5000 ∧
      mmuResolve 1 0x1ff000 (mmuMapRange 1 0x1ff000 0x9000 0x2000 pteUser fullMachine).2 = 0) := by
  have hedge : PlainTable 1 edgeMachine := PtInv.plain
    (mmuMap_refines ⟨smallMachine_tree, smallMachine_used⟩ 0x1ff000 0x5000 pteUser).1
  have hfull : PlainTable 1 fullMachine := hedge.allocPage.allocPage.allocPage
  exact ⟨⟨hedge, by decide +kernel, by decide +kernel⟩,
    ⟨hfull, by decide +kernel, by decide +kernel, by decide +kernel⟩⟩

end Obelisk
