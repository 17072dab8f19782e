import Obelisk.Paging.Owned
import Obelisk.Vmm.Steps

/-!
# Page actions respect ownership

The frames that the operations of an address space take, map, unmap and give back are always owned
by one entry of its page table or by nobody: every page action is a run of the elementary changes
of `OwnStep` (`PageStep.ownSteps`), as long as the pages it unmaps are covered by the ownership
invariant.
-/

namespace Obelisk

open KLib Relation Function FramePool

lemma physToPfn_frame (g : ℕ) : physToPfn (g * 4096) = g := by
  rw [physToPfn, Nat.shiftRight_eq_div_pow]; omega

lemma alignDown_of_aligned {a : ℕ} (h : a % pageSize = 0) (hlt : a < 2 ^ 64) :
    alignDown a pageSize = a := by
  rw [show pageSize = 2 ^ 12 by rfl, alignDown_two_pow hlt (by norm_num)]
  simp only [pageSize] at h
  omega

lemma protFlags_frame (prot : BitVec 32) :
    (vmmProtToPteFlags prot ||| ptePresent) &&& pageFrameMask = 0 := by
  unfold vmmProtToPteFlags
  split_ifs <;> decide

lemma pteTable_mapped {g : ℕ} {flags : BitVec 64} (hg : g < 2 ^ 40)
    (hf : (flags ||| ptePresent) &&& pageFrameMask = 0) :
    pteTable (pteMake (alignDown (g * 4096) pageSize) (flags ||| ptePresent)) = g := by
  rw [alignDown_of_aligned (Nat.mul_mod_left g 4096) (by omega)]
  exact pteTable_make hg hf

section

variable {P : Type} [FramePool P] {root g a : ℕ} {K D A : ℕ → Prop} {L : Set Loc} {m m' : Machine P}

section

variable (h : Owns root K D L m)
include h

lemma take_fresh {pool : P} (hmono : ∀ f, Free pool f → Free m.pool f) (hfree : Free m.pool g)
    (htaken : ¬ Free pool g) (data : ℕ → BitVec 64) :
    OwnSteps root K A (m, L) (⟨pool, update m.mem g data⟩, L) ∧
      Loose root K L ⟨pool, update m.mem g data⟩ g := by
  have hnt : NoTable root m.mem g := fun p hp ht => h.used p g hp ht hfree
  have hK : ¬ K g := fun hk => h.pinned_used g hk hfree
  refine ⟨?_, htaken, ?_, ?_, hK⟩
  · have h1 : OwnStep root K A (m, L) (⟨pool, m.mem⟩, L) := .pool rfl hmono
    exact ReflTransGen.tail (.single h1) (.fill data hnt hK rfl rfl)
  · exact hnt.congr fun p hp => tableAt_fill hnt data hp
  intro l hl
  obtain ⟨p, hp, ht⟩ := (h.frame hl).last.table
  rw [show PhysMem.read (update m.mem g data) l = m.mem.read l from read_fill hnt data hp ht]
  rintro rfl
  exact (h.frame hl).used hfree

lemma take_frame {phys : ℕ} (hphys : (allocPage m.pool).1 = phys) (h0 : phys ≠ 0) (data : ℕ → BitVec 64) :
    ∃ g, phys = g * 4096 ∧ g < 2 ^ 40 ∧ OwnSteps root K A (m, L) (m.afterAlloc.fill g data, L) ∧
      Loose root K L (m.afterAlloc.fill g data) g := by
  obtain ⟨g, hg, hlt, hfree, htaken⟩ := allocPage_fresh (hphys ▸ h0)
  exact ⟨g, hphys ▸ hg, hlt, take_fresh h (fun f => allocPage_mono) hfree htaken data⟩

lemma map_frame (hg : Loose root K L m g) (hlt : g < 2 ^ 40) (h0 : g ≠ 0)
    (ha : a % pageSize = 0) (hlt' : a < 2 ^ 64) {flags : BitVec 64}
    (hf : (flags ||| ptePresent) &&& pageFrameMask = 0) {r : ℤ}
    (hr : mmuMap root a (g * 4096) flags m = (r, m')) :
    (r ≠ 0 ∧ OwnSteps root K A (m, L) (m', L) ∧ Loose root K L m' g) ∨
    (r = 0 ∧ ∃ l, walkLoc m'.mem root a = some l ∧
      (A a → OwnSteps root K A (m, L) (m', insert l L)) ∧ NoTable root m'.mem g) := by
  have hres := mmuMap_result a (g * 4096) flags h.used
  rw [hr, alignDown_of_aligned ha hlt'] at hres
  cases hres with
  | noMem hx _ hz => exact .inl ⟨by decide, (hx.noFrame hz).ownSteps, (hx.noFrame hz).loose h hg⟩
  | exist hx _ => exact .inl ⟨by decide, hx.ownSteps, hx.loose h hg⟩
  | @ok m1 l hx hl habs =>
    have hown : Owns root K D L m1 := (Extends.ownSteps (A := A) hx).owns h
    have hloose := hx.loose h hg
    rw [← pteTable_mapped hlt hf] at hloose
    have hlast := lastLevel_of_absent hown.huge hl habs
    refine .inr ⟨rfl, l, (walkLoc_write hown.level hlast _ a).trans hl, fun hA => hx.ownSteps.tail
      (.link hA hl habs (pteIsPresent_make ..) ?_ hloose rfl rfl), ?_⟩
    · rwa [pteTable_mapped hlt hf]
    rw [pteTable_mapped hlt hf] at hloose
    exact hloose.table.congr fun p hp => tableAt_write hown.level hlast _ hp

lemma unmap_frame (hA : A a) (ha : a % pageSize = 0) (hlt : a < 2 ^ 64)
    (hD : D a) (hres : mmuResolve root a m ≠ 0) :
    ∃ g L', mmuResolve root a m = g * 4096 ∧ OwnSteps root K A (m, L) ((mmuUnmap root a m).2, L') ∧
      Loose root K L' (mmuUnmap root a m).2 g ∧
      ∀ g', Loose root K L m g' → Loose root K L' (mmuUnmap root a m).2 g' := by
  rw [mmuResolve_eq] at hres ⊢
  cases he : entryAt m.mem root a with
  | none => rw [he] at hres; exact absurd rfl hres
  | some e =>
    obtain ⟨l, ⟨hl, hpres⟩, rfl⟩ := entryAt_some.mp he
    have hmem := h.cover a hD l ⟨hl, hpres⟩
    have hun : mmuUnmap root a m = (0, { m with mem := m.mem.write l 0#64 }) := by
      rw [mmuUnmap_eq, alignDown_of_aligned ha hlt, hl]
      exact if_pos hpres
    have hoff : a &&& 0xFFF = 0 := by
      rw [show 0xFFF = 2 ^ 12 - 1 by rfl, Nat.and_two_pow_sub_one_eq_mod]; exact ha
    rw [hun]
    have htab : ∀ p, IsPath p → tableAt (m.mem.write l 0#64) root p = tableAt m.mem root p :=
      fun p hp => tableAt_write h.level (h.frame hmem).last _ hp
    refine ⟨pteTable (m.mem.read l), L \ {l}, ?_, .single (.unlink hA hl hmem rfl rfl),
      ⟨(h.frame hmem).used, (h.frame hmem).table.congr htab, ?_, (h.frame hmem).pinned⟩,
      fun g' hg' => ⟨hg'.used, hg'.table.congr htab, ?_, hg'.pinned⟩⟩
    · show pteGetFrame (m.mem.read l) ||| (a &&& 0xFFF) = _
      rw [hoff, Nat.or_zero, pteGetFrame_eq]
    · rintro l' ⟨hl', hne⟩
      rw [read_write_of_ne hne]
      intro heq
      exact hne (h.frame_inj l' hl' l hmem heq)
    rintro l' ⟨hl', hne⟩
    rw [read_write_of_ne hne]
    exact hg'.frame l' hl'

/-- Page actions are runs of elementary changes. -/
theorem PageStep.ownSteps (hA : ∀ a, A a → a % pageSize = 0 ∧ a < 2 ^ 64 ∧ D a) (hs : PageStep root A m m') :
    ∃ L', OwnSteps root K A (m, L) (m', L') := by
  cases hs with
  | @unmap a ha =>
    obtain ⟨hal, hlt, hD⟩ := hA a ha
    unfold unmapPage
    dsimp only
    split_ifs with hres
    · obtain ⟨g, L', hg, hsteps, hloose, -⟩ := unmap_frame h ha hal hlt hD hres
      refine ⟨L', hsteps.tail (.free hloose rfl fun f hf => ?_)⟩
      rw [hg] at hf
      exact (freePage_mono hf).imp_right fun e => by omega
    · exact ⟨L, .refl⟩
  | noFrame _ => exact ⟨L, .single (.pool rfl fun f => allocPage_mono)⟩
  | @mapFail m1 a phys prot data r ha hphys h0 hr hne =>
    obtain ⟨hal, hlt, -⟩ := hA a ha
    obtain ⟨g, rfl, hg40, hsteps, hloose⟩ := take_frame (A := A) h hphys h0 data
    rw [physToPfn_frame] at hr
    rcases map_frame (hsteps.owns h) (A := A) hloose hg40 (by omega) hal hlt (protFlags_frame prot) hr with
      ⟨-, hsteps', hloose'⟩ | ⟨h0', -⟩
    · refine ⟨L, (hsteps.trans hsteps').tail (.free hloose' rfl fun f hf => ?_)⟩
      exact (freePage_mono hf).imp_right fun e => by omega
    · exact absurd h0' hne
  | @map m1 a phys prot data data' ha hphys h0 hr =>
    obtain ⟨hal, hlt, -⟩ := hA a ha
    obtain ⟨g, rfl, hg40, hsteps, hloose⟩ := take_frame (A := A) h hphys h0 data
    rw [physToPfn_frame] at hr ⊢
    rcases map_frame (hsteps.owns h) (A := A) hloose hg40 (by omega) hal hlt (protFlags_frame prot) hr with
      ⟨h0', -⟩ | ⟨-, l, -, hsteps', hnt⟩
    · exact absurd rfl h0'
    · exact ⟨insert l L, (hsteps.trans (hsteps' ha)).tail (.fill data' hnt hloose.pinned rfl rfl)⟩
  | @cow a phys prot data ha hphys h0 hres =>
    obtain ⟨hal, hlt, hD⟩ := hA a ha
    obtain ⟨g, rfl, hg40, hsteps, hloose⟩ := take_frame (A := A) h hphys h0 data
    have hown := hsteps.owns h
    rw [physToPfn_frame]
    have hres' : mmuResolve root a (m.afterAlloc.fill g data) ≠ 0 := by
      have hnt : NoTable root m.mem g := fun p hp ht => by
        obtain ⟨g', hg', -, hfree, -⟩ := allocPage_fresh (hphys ▸ h0)
        exact h.used p g hp ht (by rwa [show g = g' by omega])
      rw [mmuResolve_eq] at hres ⊢
      rwa [show (m.afterAlloc.fill g data).mem = update m.mem g data from rfl, entryAt_fill hnt]
    obtain ⟨-, L1, -, hsteps1, -, hkeep⟩ := unmap_frame hown ha hal hlt hD hres'
    rcases hr : mmuMap root a (g * 4096) (vmmProtToPteFlags prot)
      (mmuUnmap root a (m.afterAlloc.fill g data)).2 with ⟨r, m2⟩
    rcases map_frame (hsteps1.owns hown) (A := A) (hkeep g hloose) hg40 (by omega) hal hlt (protFlags_frame prot) hr with
      ⟨-, hsteps2, -⟩ | ⟨-, l, -, hsteps2, -⟩
    · exact ⟨L1, (hsteps.trans hsteps1).trans hsteps2⟩
    · exact ⟨insert l L1, (hsteps.trans hsteps1).trans (hsteps2 ha)⟩

lemma PageSteps.ownSteps (hA : ∀ a, A a → a % pageSize = 0 ∧ a < 2 ^ 64 ∧ D a) (hs : PageSteps root A m m') :
    ∃ L', OwnSteps root K A (m, L) (m', L') := by
  induction hs with
  | refl => exact ⟨L, .refl⟩
  | tail _ hstep ih =>
    obtain ⟨L1, h1⟩ := ih
    obtain ⟨L2, h2⟩ := hstep.ownSteps (h1.owns h) hA
    exact ⟨L2, h1.trans h2⟩

end

end

end Obelisk
