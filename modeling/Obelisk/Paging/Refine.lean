import Obelisk.Lib.Run
import Obelisk.Paging.Entries
import Obelisk.Pmm.Pool

/-!
# Page tables refine a partial map

For a page table whose tables are distinct frames (`PageTree`), the functions of the page-table
interface are the operations of a partial map from page numbers to frames and flags.
-/

namespace Obelisk

open KLib Function BitVec

variable {virt : ℕ} {l : Loc}
variable {f root : ℕ} {p : List ℕ}

abbrev PageNum := Fin (2 ^ 36)

abbrev PageMap := PageNum → Option (ℕ × BitVec 64)

def pageOf (virt : Fin (2 ^ 48)) : PageNum := ⟨virt / 4096, by omega⟩

/-- An operation on a page table. -/
inductive PtOp
  | map (virt : Fin (2 ^ 48)) (phys : ℕ) (flags : BitVec 64)
  | unmap (virt : Fin (2 ^ 48))
  | setFlags (virt : Fin (2 ^ 48)) (flags : BitVec 64)
  | resolve (virt : Fin (2 ^ 48))
  deriving DecidableEq

def presentFlags (flags : BitVec 64) : BitVec 64 := (flags ||| ptePresent) &&& ~~~pageFrameMask

def withFlags (frame : ℕ) (flags : BitVec 64) : ℕ × BitVec 64 :=
  (frame ||| (flags &&& pageFrameMask).toNat, presentFlags flags)

/-- What the operations mean for the map from pages to translations. -/
inductive PageMap.Step : PtOp → PageMap → ℤ → PageMap → Prop
  | map {pm : PageMap} {v : Fin (2 ^ 48)} {phys : ℕ} {flags : BitVec 64} : pm (pageOf v) = none →
      Step (.map v phys flags) pm 0
        (update pm (pageOf v) (some (withFlags (alignDown phys pageSize % 2 ^ 52) flags)))
  | mapNoMem {pm : PageMap} {v : Fin (2 ^ 48)} {phys : ℕ} {flags : BitVec 64} :
      pm (pageOf v) = none → Step (.map v phys flags) pm (-eNOMEM) pm
  | mapExist {pm : PageMap} {v : Fin (2 ^ 48)} {phys : ℕ} {flags : BitVec 64} {x : ℕ × BitVec 64} :
      pm (pageOf v) = some x → Step (.map v phys flags) pm (-eEXIST) pm
  | unmap {pm : PageMap} {v : Fin (2 ^ 48)} {x : ℕ × BitVec 64} : pm (pageOf v) = some x →
      Step (.unmap v) pm 0 (update pm (pageOf v) none)
  | unmapNoEnt {pm : PageMap} {v : Fin (2 ^ 48)} : pm (pageOf v) = none → Step (.unmap v) pm (-eNOENT) pm
  | setFlags {pm : PageMap} {v : Fin (2 ^ 48)} {flags : BitVec 64} {x : ℕ × BitVec 64} : pm (pageOf v) = some x →
      Step (.setFlags v flags) pm 0 (update pm (pageOf v) (some (withFlags x.1 flags)))
  | setFlagsNoEnt {pm : PageMap} {v : Fin (2 ^ 48)} {flags : BitVec 64} : pm (pageOf v) = none →
      Step (.setFlags v flags) pm (-eNOENT) pm
  | resolve {pm : PageMap} {v : Fin (2 ^ 48)} {x : ℕ × BitVec 64} : pm (pageOf v) = some x →
      Step (.resolve v) pm ((x.1 ||| (v.1 &&& 0xFFF) : ℕ) : ℤ) pm
  | resolveNone {pm : PageMap} {v : Fin (2 ^ 48)} : pm (pageOf v) = none → Step (.resolve v) pm 0 pm

/-! ## The map of a page table -/

/-- The tables are distinct frames and the middle levels have no huge entry. -/
structure PageTree (root : ℕ) (mem : PhysMem) : Prop where
  distinct : Sep Eq root mem
  no_huge : ∀ p f i, IsPath (p ++ [i]) → p ≠ [] → tableAt mem root p = some f → pteIsHuge (mem f i) = false

def translation (e : BitVec 64) : ℕ × BitVec 64 := (pteGetFrame e, e &&& ~~~pageFrameMask)

def absMap (root : ℕ) (mem : PhysMem) : PageMap := fun page =>
  (entryAt mem root (page * 4096)).map translation

lemma toNat_ofNat_and_mask {x : ℕ} (hx : x < 2 ^ 64) (hd : x % 4096 = 0) :
    (BitVec.ofNat 64 x &&& pageFrameMask).toNat = x % 2 ^ 52 := by
  rw [toNat_and_pageFrameMask, toNat_ofNat, Nat.mod_eq_of_lt hx]
  omega

lemma translation_pteMake (x : ℕ) (flags : BitVec 64) : translation (pteMake x (flags ||| ptePresent)) =
      withFlags (BitVec.ofNat 64 x &&& pageFrameMask).toNat flags := by
  have hframe : pteMake x (flags ||| ptePresent) &&& pageFrameMask =
      BitVec.ofNat 64 x &&& pageFrameMask ||| flags &&& pageFrameMask := by
    have hpres : ptePresent &&& pageFrameMask = 0#64 := by decide
    rw [pteMake, BitVec.and_or_distrib_right, BitVec.and_or_distrib_right, hpres, BitVec.and_assoc,
      BitVec.and_self, BitVec.or_zero]
  have hflags : pteMake x (flags ||| ptePresent) &&& ~~~pageFrameMask = presentFlags flags := by
    have hmask : pageFrameMask &&& ~~~pageFrameMask = 0#64 := by decide
    rw [pteMake, BitVec.and_or_distrib_right, BitVec.and_assoc, hmask, BitVec.and_zero,
      zero_or, presentFlags]
  rw [translation, withFlags, pteGetFrame, hframe, hflags, toNat_or]

namespace PageTree

variable {root : ℕ} {mem : PhysMem} (ht : PageTree root mem)
include ht

lemma levelSep : LevelSep root mem := fun p q f hp hq h1 h2 => by
  rw [ht.distinct p q f hp hq h1 h2]

lemma walkLoc_some (h : walkLoc mem root virt = some l) :
    tableAt mem root (pathOf virt) = some l.1 ∧ l.2 = ptIndex virt := by
  rcases walkFrom_cases h with ⟨p, hp, hne, hpt, hh⟩ | h
  · have hp0 : p ≠ [] := by rintro rfl; cases hne
    rw [ht.no_huge p l.1 l.2 (isPath_initial hp) hp0 hpt] at hh
    cases hh
  · exact h

lemma lastLevel (h : walkLoc mem root virt = some l) :
    LastLevel root mem l := ⟨pathOf virt, isPath_pathOf virt, rfl, (ht.walkLoc_some h).1⟩

lemma walkLoc_inj {v w : ℕ} (hv : v < 2 ^ 48) (hw : w < 2 ^ 48)
    (h1 : walkLoc mem root v = some l) (h2 : walkLoc mem root w = some l) :
    v / 4096 = w / 4096 := by
  obtain ⟨t1, i1⟩ := ht.walkLoc_some h1
  obtain ⟨t2, i2⟩ := ht.walkLoc_some h2
  exact page_eq_of_indices hv hw (ht.distinct _ _ _ (isPath_pathOf v) (isPath_pathOf w) t1 t2) (i1.symm.trans i2)

lemma write (hl : LastLevel root mem l) (w : BitVec 64) : PageTree root (mem.write l w) := by
  refine ⟨sep_write ht.levelSep hl w ht.distinct, fun p f i hp h0 hf => ?_⟩
  rw [tableAt_write ht.levelSep hl w hp.left] at hf
  have hlen := hp.1
  rw [List.length_append, List.length_singleton] at hlen
  rw [write_middle ht.levelSep hl w i hp.left (by omega) hf]
  exact ht.no_huge p f i hp h0 hf

lemma absMap_write {v : Fin (2 ^ 48)} (hl : walkLoc mem root v = some l)
    (w : BitVec 64) : absMap root (mem.write l w) = update (absMap root mem) (pageOf v)
      (if pteIsPresent w then some (translation w) else none) := by
  funext page
  rw [absMap, entryAt_write ht.levelSep (ht.lastLevel hl), update_apply]
  have hpage : walkLoc mem root (page * 4096) = some l ↔ page = pageOf v := by
    constructor
    · intro h
      have := ht.walkLoc_inj (by omega) v.2 h hl
      exact Fin.ext (by simpa [pageOf] using this)
    rintro rfl
    rw [← hl]
    exact walkLoc_page (by simp [pageOf]) mem root
  by_cases h : page = pageOf v
  · rw [if_pos (hpage.mpr h), if_pos h]; split_ifs <;> rfl
  · rw [if_neg (fun h' => h (hpage.mp h')), if_neg h]; rfl

end PageTree

lemma absMap_pageOf (root : ℕ) (mem : PhysMem) (v : Fin (2 ^ 48)) :
    absMap root mem (pageOf v) = (entryAt mem root v).map translation := by
  rw [absMap, entryAt_page (by simp [pageOf] : (pageOf v).1 * 4096 / 4096 = v.1 / 4096)]

variable {P : Type} [FramePool P]

lemma NewTable.pageTree {i g : ℕ} {m m' : Machine P}
    (h : NewTable root p f i g m m') (hu : TablesUsed root m) (ht : PageTree root m.mem) :
    PageTree root m'.mem := by
  refine ⟨h.sep hu (fun p q i e => by rw [e]) ht.distinct, fun q t j hq h0 hqt => ?_⟩
  rcases h.tableAt_cases hu hq.left hqt with hold | ⟨rfl, -⟩
  · by_cases he : (t, j) = (f, i)
    · cases he
      simpa using (nextTable_some.mp (h.next_self false)).2.1
    · rw [h.mem_of_ne hu hq.left hold he]
      exact ht.no_huge q t j hq h0 hold
  · rw [h.mem_new hu]; exact pteIsHuge_zero

lemma Extends.pageTree {m m' : Machine P} (h : Extends root virt m m')
    (hu : TablesUsed root m) (ht : PageTree root m.mem) : PageTree root m'.mem := by
  induction h with
  | refl => exact ht
  | noFrame _ _ ih => exact ih
  | table hx _ hn ih => exact hn.pageTree (hx.tablesUsed hu) ih

lemma Extends.absMap_eq {m m' : Machine P} (h : Extends root virt m m')
    (hu : TablesUsed root m) (ht : PageTree root m.mem) : absMap root m'.mem = absMap root m.mem := by
  funext page
  rw [absMap, h.entryAt_eq hu ht.levelSep]; rfl

/-! ## The calls are the operations -/

def ptExec (root : ℕ) : PtOp → Machine P → ℤ × Machine P
  | .map virt phys flags, m => mmuMap root virt phys flags m
  | .unmap virt, m => mmuUnmap root virt m
  | .setFlags virt flags, m => mmuSetFlags root virt flags m
  | .resolve virt, m => (mmuResolve root virt m, m)

/-- The invariant of the page table. -/
structure PtInv (root : ℕ) (m : Machine P) : Prop where
  tree : PageTree root m.mem
  used : TablesUsed root m

lemma PtInv.write {m : Machine P} (h : PtInv root m) (hl : walkLoc m.mem root virt = some l) (w : BitVec 64) :
    PtInv root { m with mem := m.mem.write l w } :=
  ⟨h.tree.write (h.tree.lastLevel hl) w, h.used.write h.tree.levelSep (h.tree.lastLevel hl) w⟩

section Calls

variable {root : ℕ} {m : Machine P} (h : PtInv root m) (v : Fin (2 ^ 48))
include h

lemma mmuMap_refines (phys : ℕ) (flags : BitVec 64) : PtInv root (mmuMap root v phys flags m).2 ∧
      PageMap.Step (.map v phys flags) (absMap root m.mem) (mmuMap root v phys flags m).1
        (absMap root (mmuMap root v phys flags m).2.mem) := by
  have hpage := alignDown_page (show v.1 < 2 ^ 64 by omega)
  have hres := mmuMap_result v phys flags h.used
  generalize mmuMap root v phys flags m = r at hres ⊢
  obtain ⟨ret, m'⟩ := r
  dsimp only at hres ⊢
  cases hres with
  | noMem hx hw hz =>
    refine ⟨⟨hx.pageTree h.used h.tree, (hx.noFrame hz).tablesUsed h.used⟩, ?_⟩
    rw [hx.absMap_eq h.used h.tree]
    apply PageMap.Step.mapNoMem
    rw [absMap_pageOf, ← hx.entryAt_eq h.used h.tree.levelSep, ← entryAt_page hpage, entryAt, hw]
    rfl
  | @exist _ e hx he =>
    refine ⟨⟨hx.pageTree h.used h.tree, hx.tablesUsed h.used⟩, ?_⟩
    rw [hx.absMap_eq h.used h.tree]
    apply PageMap.Step.mapExist (x := translation e)
    rw [absMap_pageOf, ← hx.entryAt_eq h.used h.tree.levelSep, ← entryAt_page hpage, he]
    rfl
  | @ok m' l hx hl hp =>
    have hi : PtInv root m' := ⟨hx.pageTree h.used h.tree, hx.tablesUsed h.used⟩
    refine ⟨hi.write hl _, ?_⟩
    rw [walkLoc_page hpage] at hl
    rw [hi.tree.absMap_write hl, pteIsPresent_make, if_pos rfl, hx.absMap_eq h.used h.tree, translation_pteMake]
    have hmod : alignDown phys pageSize % 4096 = 0 := alignDown_mod phys (k := 12) (by norm_num)
    rw [toNat_ofNat_and_mask (alignDown_lt _ _ (by decide)) hmod]
    apply PageMap.Step.map
    rw [absMap_pageOf, ← hx.entryAt_eq h.used h.tree.levelSep, entryAt, hl]
    simp [hp]

lemma mmuUnmap_refines : PtInv root (mmuUnmap root v m).2 ∧
    PageMap.Step (.unmap v) (absMap root m.mem) (mmuUnmap root v m).1
      (absMap root (mmuUnmap root v m).2.mem) := by
  rw [mmuUnmap_eq, walkLoc_page (alignDown_page (show v.1 < 2 ^ 64 by omega))]
  have hpage : absMap root m.mem (pageOf v) = (entryAt m.mem root v).map translation :=
    absMap_pageOf root m.mem v
  rw [entryAt] at hpage
  cases hl : walkLoc m.mem root v with
  | none => exact ⟨h, .unmapNoEnt (by rw [hpage, hl]; rfl)⟩
  | some l =>
    rw [hl, Option.bind_some] at hpage
    dsimp only
    split_ifs with hp
    · refine ⟨h.write hl _, ?_⟩
      dsimp only
      rw [h.tree.absMap_write hl, pteIsPresent_zero]
      exact .unmap (by rw [hpage, if_pos hp]; rfl)
    · exact ⟨h, .unmapNoEnt (by rw [hpage, if_neg hp]; rfl)⟩

lemma mmuSetFlags_refines (flags : BitVec 64) : PtInv root (mmuSetFlags root v flags m).2 ∧
    PageMap.Step (.setFlags v flags) (absMap root m.mem) (mmuSetFlags root v flags m).1
      (absMap root (mmuSetFlags root v flags m).2.mem) := by
  rw [mmuSetFlags_eq]
  have hpage : absMap root m.mem (pageOf v) = (entryAt m.mem root v).map translation :=
    absMap_pageOf root m.mem v
  rw [entryAt] at hpage
  cases hl : walkLoc m.mem root v with
  | none => exact ⟨h, .setFlagsNoEnt (by rw [hpage, hl]; rfl)⟩
  | some l =>
    rw [hl, Option.bind_some] at hpage
    dsimp only
    split_ifs with hp
    · refine ⟨h.write hl _, ?_⟩
      dsimp only
      rw [h.tree.absMap_write hl, pteIsPresent_make, if_pos rfl, translation_pteMake]
      have hfr : (BitVec.ofNat 64 (pteGetFrame (m.mem.read l)) &&& pageFrameMask).toNat =
          (translation (m.mem.read l)).1 := by
        rw [translation, pteGetFrame, BitVec.ofNat_toNat, BitVec.setWidth_eq, BitVec.and_assoc, BitVec.and_self]
      rw [hfr]
      exact .setFlags (by rw [hpage, if_pos hp]; rfl)
    · exact ⟨h, .setFlagsNoEnt (by rw [hpage, if_neg hp]; rfl)⟩

omit h in
lemma mmuResolve_refines :
    PageMap.Step (.resolve v) (absMap root m.mem) (mmuResolve root v m) (absMap root m.mem) := by
  rw [mmuResolve_eq]
  cases he : entryAt m.mem root v with
  | none => exact .resolveNone (by rw [absMap_pageOf, he]; rfl)
  | some e => exact .resolve (x := translation e) (by rw [absMap_pageOf, he]; rfl)

end Calls

/-- **Page tables refine a partial map.** From a page table whose tables are distinct frames with
no huge entry, none of them free in the allocator, every sequence of calls on 48-bit addresses is a
sequence of operations of the map that the page table stands for. -/
theorem mmu_run_refines (root : ℕ) (m : Machine P) (htree : PageTree root m.mem)
    (hused : TablesUsed root m) (ops : List PtOp) :
    Trace PageMap.Step ops (absMap root m.mem) (runOps (ptExec root) ops m).1
      (absMap root (runOps (ptExec root) ops m).2.mem) := by
  refine (runOps_simulates (PtInv root) (fun m : Machine P => absMap root m.mem)
    (fun op m h => ?_) ops ⟨htree, hused⟩).2
  cases op with
  | map v phys flags => exact mmuMap_refines h v phys flags
  | unmap v => exact mmuUnmap_refines h v
  | setFlags v flags => exact mmuSetFlags_refines h v flags
  | resolve v => exact ⟨h, mmuResolve_refines v⟩

def smallPool : PmmPool :=
  ⟨pmmMarkRegionFree 0x2000 0x6000 (pmmInitBitmap 8 pmmStatic),
    (Pmm.exec_inv (Pmm.pmmInitBitmap_inv 8 none 0) (.markRegionFree 0x2000 0x6000)).1⟩

def smallMachine : Machine PmmPool := ⟨smallPool, fun _ _ => 0#64⟩

lemma tableAt_smallMachine (hp : IsPath p)
    (h : tableAt smallMachine.mem 1 p = some f) : p = [] ∧ f = 1 :=
  tableAt_of_absent hp (fun _ _ => pteIsPresent_zero) h

lemma smallMachine_tree : PageTree 1 smallMachine.mem := by
  refine ⟨fun p q f hp hq h1 h2 => ?_, fun _ _ _ _ _ _ => pteIsHuge_zero⟩
  rw [(tableAt_smallMachine hp h1).1, (tableAt_smallMachine hq h2).1]

lemma smallMachine_used : TablesUsed 1 smallMachine := by
  rintro p f hp hf ⟨z, hz⟩
  obtain rfl := (tableAt_smallMachine hp hf).2
  have hbit := (Pmm.mem_freeFrames.mp hz).2
  rw [show bitmapTest smallMachine.pool.1.bitmap 1 = true by decide +kernel] at hbit
  cases hbit

theorem mmu_run_refines_small :
    let ops := [.map 0x401000 0x5000 pteWritable, .map 0x401abc 0x6000 pteUser,
      .resolve 0x401abc, .unmap 0x401000, .resolve 0x401000]
    (runOps (ptExec 1) ops smallMachine).1 = [0, -17, 0x5abc, 0, 0] ∧
      Trace PageMap.Step ops (absMap 1 smallMachine.mem) (runOps (ptExec 1) ops smallMachine).1
        (absMap 1 (runOps (ptExec 1) ops smallMachine).2.mem) :=
  ⟨by decide +kernel, mmu_run_refines 1 smallMachine smallMachine_tree smallMachine_used _⟩

end Obelisk
