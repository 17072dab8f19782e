import Mathlib.Tactic.Linarith
import Obelisk.Paging.Model

/-!
# Tables, paths and walks

A table is named by the list of indices that leads to it from the PML4 (`tableAt`).
-/

namespace Obelisk

open KLib Function List Option FramePool

variable {pfn t : ℕ} {top : Bool} {q : List ℕ}
variable {f g i j root virt : ℕ} {p : List ℕ} {mem : PhysMem}

/-! ## Bits of an entry -/

lemma pteIsPresent_eq (e : BitVec 64) : pteIsPresent e = e.getLsbD 0 :=
  and_one_shiftLeft_bne e (by norm_num)

lemma pteIsHuge_eq (e : BitVec 64) : pteIsHuge e = e.getLsbD 7 :=
  and_one_shiftLeft_bne e (by norm_num)

lemma pageFrameMask_bit (i : ℕ) :
    pageFrameMask.getLsbD i = (decide (12 ≤ i) && decide (i < 52)) := by
  by_cases hi : i < 64
  · have h : ∀ j : Fin 64, pageFrameMask.getLsbD j = (decide (12 ≤ (j : ℕ)) && decide ((j : ℕ) < 52)) := by
      decide
    exact h ⟨i, hi⟩
  rw [BitVec.getLsbD_of_ge _ _ (by omega)]
  simp [show ¬ i < 52 by omega]

lemma toNat_and_pageFrameMask (e : BitVec 64) :
    (e &&& pageFrameMask).toNat = e.toNat / 4096 % 2 ^ 40 * 4096 := by
  apply Nat.eq_of_testBit_eq
  intro i
  rw [← BitVec.getLsbD, BitVec.getLsbD_and, pageFrameMask_bit,
    show (4096 : ℕ) = 2 ^ 12 by norm_num, Nat.testBit_mul_two_pow, Nat.testBit_mod_two_pow,
    Nat.testBit_div_two_pow, BitVec.getLsbD]
  by_cases h1 : 12 ≤ i
  · rw [Nat.sub_add_cancel h1]
    have : decide (i < 52) = decide (i - 12 < 40) := decide_eq_decide.mpr (by omega)
    simp [h1, this, Bool.and_comm]
  · simp [h1]

lemma pteGetFrame_eq (e : BitVec 64) : pteGetFrame e = pteTable e * 4096 := by
  rw [pteTable, physToPfn, Nat.shiftRight_eq_div_pow, pteGetFrame, toNat_and_pageFrameMask]
  omega

lemma pteTable_lt (e : BitVec 64) : pteTable e < 2 ^ 40 := by
  rw [pteTable, physToPfn, Nat.shiftRight_eq_div_pow, pteGetFrame, toNat_and_pageFrameMask]
  omega

lemma pteIsPresent_make (frame : ℕ) (flags : BitVec 64) :
    pteIsPresent (pteMake frame (flags ||| ptePresent)) = true := by
  rw [pteIsPresent_eq, pteMake, BitVec.getLsbD_or, BitVec.getLsbD_or,
    show ptePresent.getLsbD 0 = true by decide, Bool.or_true, Bool.or_true]

lemma pteIsPresent_zero : pteIsPresent 0#64 = false := by decide

lemma pteIsHuge_zero : pteIsHuge 0#64 = false := by decide

lemma pteTable_make {flags : BitVec 64} (hp : pfn < 2 ^ 40)
    (hf : flags &&& pageFrameMask = 0#64) : pteTable (pteMake (pfn * 4096) flags) = pfn := by
  have h1 : pteMake (pfn * 4096) flags &&& pageFrameMask =
      BitVec.ofNat 64 (pfn * 4096) &&& pageFrameMask := by
    apply BitVec.eq_of_getLsbD_eq
    intro i hi
    have hbit := congrArg (fun w => w.getLsbD i) hf
    simp only [BitVec.getLsbD_and, BitVec.getLsbD_zero] at hbit
    rw [pteMake, BitVec.getLsbD_and, BitVec.getLsbD_or, BitVec.getLsbD_and, Bool.and_or_distrib_right,
      hbit, Bool.or_false, Bool.and_assoc, Bool.and_self]
  rw [pteTable, physToPfn, Nat.shiftRight_eq_div_pow, pteGetFrame, h1, toNat_and_pageFrameMask, BitVec.toNat_ofNat]
  omega

lemma walkFlags_frame (virt : ℕ) : (walkFlags virt ||| ptePresent) &&& pageFrameMask = 0#64 := by
  unfold walkFlags; split_ifs <;> decide

lemma walkFlags_huge (virt : ℕ) :
    pteIsHuge (pteMake (pfn * 4096) (walkFlags virt ||| ptePresent)) = false := by
  rw [pteIsHuge_eq, pteMake, BitVec.getLsbD_or, BitVec.getLsbD_and, pageFrameMask_bit]
  unfold walkFlags; split_ifs <;> simp <;> decide

lemma tableIndex_lt (shift virt : ℕ) : tableIndex shift virt < 512 := by
  have : tableIndex shift virt ≤ 0x1FF := Nat.and_le_right
  omega

lemma tableIndex_eq (shift virt : ℕ) : tableIndex shift virt = virt / 2 ^ shift % 512 := by
  rw [tableIndex, Nat.shiftRight_eq_div_pow, show 0x1FF = 2 ^ 9 - 1 by norm_num, Nat.and_two_pow_sub_one_eq_mod]

namespace PhysMem

variable {mem : PhysMem} {e : Loc} {w : BitVec 64} {f j g : ℕ}

lemma write_of_ne (h : (f, j) ≠ e) : mem.write e w f j = mem f j := by
  unfold write
  rw [update_apply]
  split_ifs with hf
  · rw [update_of_ne, hf]
    intro hj
    exact h (Prod.ext hf hj)
  · rfl

lemma write_self : mem.write e w e.1 e.2 = w := by
  simp [write]

lemma zeroFrame_self : mem.zeroFrame g g j = 0#64 := by
  simp [zeroFrame]

lemma zeroFrame_of_ne (h : f ≠ g) : mem.zeroFrame g f j = mem f j := by
  simp [zeroFrame, update_of_ne h]

end PhysMem

def nextTable (top : Bool) (e : BitVec 64) : Option ℕ :=
  if pteIsPresent e && (top || !pteIsHuge e) then some (pteTable e) else none

def tableFrom (mem : PhysMem) : Bool → ℕ → List ℕ → Option ℕ
  | _, f, [] => some f
  | top, f, i :: p => (nextTable top (mem f i)).bind fun g => tableFrom mem false g p

def tableAt (mem : PhysMem) (root : ℕ) (p : List ℕ) : Option ℕ := tableFrom mem true root p

def IsPath (p : List ℕ) : Prop := p.length ≤ 3 ∧ ∀ i ∈ p, i < 512

lemma IsPath.left (h : IsPath (p ++ [i])) : IsPath p :=
  ⟨by have := h.1; simp at this; omega, fun j hj => h.2 j (mem_append_left _ hj)⟩

lemma isPath_nil : IsPath [] := ⟨by simp, by simp⟩

lemma tableFrom_append (mem : PhysMem) (top : Bool) (f : ℕ) (p : List ℕ) (i : ℕ) : tableFrom mem top f (p ++ [i]) =
      (tableFrom mem top f p).bind fun g => nextTable (top && p.isEmpty) (mem g i) := by
  induction p generalizing top f with
  | nil => cases h : nextTable top (mem f i) <;> simp [tableFrom, h]
  | cons j p ih =>
    simp [tableFrom, bind_assoc, ih, isEmpty_cons]

lemma tableAt_append (mem : PhysMem) (root : ℕ) (p : List ℕ) (i : ℕ) : tableAt mem root (p ++ [i]) =
      (tableAt mem root p).bind fun g => nextTable p.isEmpty (mem g i) := by
  rw [tableAt, tableFrom_append]; rfl

lemma tableAt_append_some {h : ℕ} : tableAt mem root (p ++ [i]) = some h ↔
      ∃ g, tableAt mem root p = some g ∧ nextTable p.isEmpty (mem g i) = some h := by
  rw [tableAt_append, bind_eq_some_iff]

lemma nextTable_some {e : BitVec 64} : nextTable top e = some g ↔
    pteIsPresent e = true ∧ (top = true ∨ pteIsHuge e = false) ∧ pteTable e = g := by
  unfold nextTable
  split_ifs with h
  · simp only [Bool.and_eq_true, Bool.or_eq_true, Bool.not_eq_true'] at h
    simp [h]
  simp only [Bool.and_eq_true, Bool.or_eq_true, Bool.not_eq_true'] at h
  simp only [false_iff]
  exact fun h' => h ⟨h'.1, h'.2.1⟩

lemma tableAt_congr {mem' : PhysMem} (hp : IsPath p) (h : ∀ q f i, IsPath (q ++ [i]) → tableAt mem root q = some f →
      nextTable q.isEmpty (mem' f i) = nextTable q.isEmpty (mem f i)) :
    tableAt mem' root p = tableAt mem root p := by
  induction p using List.reverseRecOn with
  | nil => rfl
  | append_singleton q i ih =>
    rw [tableAt_append, tableAt_append, ih hp.left]
    cases hq : tableAt mem root q with
    | none => rfl
    | some f => exact h q f i hp hq

lemma tableAt_of_absent (hp : IsPath p)
    (habs : ∀ i < 512, pteIsPresent (mem root i) = false) (h : tableAt mem root p = some f) :
    p = [] ∧ f = root := by
  cases p with
  | nil => cases h; exact ⟨rfl, rfl⟩
  | cons i p =>
    rw [tableAt, tableFrom, nextTable, habs i (hp.2 i mem_cons_self)] at h
    cases h

def pathOf (virt : ℕ) : List ℕ := [pml4Index virt, pdptIndex virt, pdIndex virt]

lemma isPath_pathOf (virt : ℕ) : IsPath (pathOf virt) := by
  refine ⟨by simp [pathOf], fun i hi => ?_⟩
  simp only [pathOf, mem_cons, not_mem_nil, or_false] at hi
  rcases hi with rfl | rfl | rfl <;> exact tableIndex_lt _ _

lemma isPath_initial (h : p <+: pathOf virt) : IsPath p :=
  ⟨h.length_le.trans (isPath_pathOf virt).1, fun i hi => (isPath_pathOf virt).2 i (h.subset hi)⟩

def walkFrom (mem : PhysMem) : Bool → ℕ → List ℕ → ℕ → Option Loc
  | _, f, [], j => some (f, j)
  | top, f, i :: p, j =>
    if !top && pteIsHuge (mem f i) then some (f, i)
    else (nextTable top (mem f i)).bind fun g => walkFrom mem false g p j

def walkLoc (mem : PhysMem) (root virt : ℕ) : Option Loc :=
  walkFrom mem true root (pathOf virt) (ptIndex virt)

lemma walkFrom_append (q : List ℕ) (j : ℕ) (h : tableFrom mem top f p = some g) :
    walkFrom mem top f (p ++ q) j = walkFrom mem (top && p.isEmpty) g q j := by
  induction p generalizing top f with
  | nil => cases h; simp
  | cons i p ih =>
    rw [tableFrom, bind_eq_some_iff] at h
    obtain ⟨t, hn, ht⟩ := h
    have hstop : (!top && pteIsHuge (mem f i)) = false := by
      rcases (nextTable_some.mp hn).2.1 with rfl | hh
      · rfl
      · rw [hh, Bool.and_false]
    rw [cons_append, walkFrom, hstop, hn, bind_some]
    simp [ih ht]

lemma walkFrom_cases {l : Loc} (h : walkFrom mem top f q j = some l) :
    (∃ p, p ++ [l.2] <+: q ∧ (top && p.isEmpty) = false ∧ tableFrom mem top f p = some l.1 ∧
      pteIsHuge (mem l.1 l.2) = true) ∨ (tableFrom mem top f q = some l.1 ∧ l.2 = j) := by
  induction q generalizing top f with
  | nil => cases h; exact .inr ⟨rfl, rfl⟩
  | cons i q ih =>
    rw [walkFrom] at h
    split_ifs at h with hh
    · cases h
      simp only [Bool.and_eq_true, Bool.not_eq_true'] at hh
      exact .inl ⟨[], by simp, by simp [hh.1], rfl, hh.2⟩
    rw [bind_eq_some_iff] at h
    obtain ⟨t, hn, ht⟩ := h
    rcases ih ht with ⟨p, hp, -, hpt, hpl⟩ | ⟨hq, hl⟩
    · refine .inl ⟨i :: p, ?_, by simp, ?_, hpl⟩
      · rw [cons_append, cons_prefix_cons]; exact ⟨rfl, hp⟩
      · rw [tableFrom, hn]; exact hpt
    refine .inr ⟨?_, hl⟩
    rw [tableFrom, hn]; exact hq

lemma walkLoc_of_tableAt (h : tableAt mem root (pathOf virt) = some t) :
    walkLoc mem root virt = some (t, ptIndex virt) := by
  have := walkFrom_append [] (ptIndex virt) h
  rwa [append_nil] at this

lemma walkLoc_of_huge (hp : p ≠ []) (hpre : p ++ [i] <+: pathOf virt) (h : tableAt mem root p = some f)
    (hh : pteIsHuge (mem f i) = true) : walkLoc mem root virt = some (f, i) := by
  obtain ⟨q, hq⟩ := hpre
  rw [walkLoc, ← hq, append_assoc, walkFrom_append _ _ h, isEmpty_eq_false_iff.mpr hp]
  simp [walkFrom, hh]

lemma walkLoc_of_none (hpre : p ++ [i] <+: pathOf virt) (h : tableAt mem root p = some f)
    (hn : pteIsPresent (mem f i) = false) (hh : p = [] ∨ pteIsHuge (mem f i) = false) :
    walkLoc mem root virt = none := by
  obtain ⟨q, hq⟩ := hpre
  rw [walkLoc, ← hq, append_assoc, walkFrom_append _ _ h]
  have hnext : ∀ top, nextTable top (mem f i) = none := fun top => by simp [nextTable, hn]
  rcases hh with rfl | hh
  · simp [walkFrom, hnext]
  · simp [walkFrom, hh, hnext]

variable {P : Type} [FramePool P]

lemma pagingDescend_false {m : Machine P} (flags : BitVec 64) (h : top = true ∨ pteIsHuge (m.mem f i) = false) :
    pagingDescend false flags (f, i) m = (nextTable top (m.mem f i), m) := by
  have hread : m.mem.read (f, i) = m.mem f i := rfl
  unfold pagingDescend nextTable
  rw [hread]
  cases pteIsPresent (m.mem f i)
  · rfl
  rcases h with rfl | h
  · rfl
  · simp [h]

lemma pagingWalk_false (root virt : ℕ) (m : Machine P) :
    pagingWalk root virt false m = (walkLoc m.mem root virt, m) := by
  have hread : ∀ f i, m.mem.read (f, i) = m.mem f i := fun _ _ => rfl
  unfold pagingWalk walkLoc pathOf
  simp only [walkFrom, Bool.not_true, Bool.false_and, Bool.false_eq_true, if_false, Bool.not_false, Bool.true_and]
  rw [pagingDescend_false _ (.inl rfl)]
  cases nextTable true (m.mem root (pml4Index virt)) with
  | none => rfl
  | some pdpt =>
    simp only [bind_some, hread]
    split_ifs with h3
    · rfl
    rw [pagingDescend_false _ (.inr (by simpa using h3))]
    cases nextTable false (m.mem pdpt (pdptIndex virt)) with
    | none => rfl
    | some pd =>
      simp only [bind_some, hread]
      split_ifs with h2
      · rfl
      rw [pagingDescend_false _ (.inr (by simpa using h2))]
      cases nextTable false (m.mem pd (pdIndex virt)) <;> rfl

/-! ## Creating tables -/

def TablesUsed (root : ℕ) (m : Machine P) : Prop :=
  ∀ p f, IsPath p → tableAt m.mem root p = some f → ¬ Free m.pool f

/-- `m'` is `m` with a fresh zeroed table `g` linked at index `i` of the table `f`. -/
structure NewTable (root : ℕ) (p : List ℕ) (f i g : ℕ) (m m' : Machine P) : Prop where
  isPath : IsPath (p ++ [i])
  table : tableAt m.mem root p = some f
  absent : pteIsPresent (m.mem f i) = false
  alloc : (allocPage m.pool).1 = g * 4096
  ne_zero : (allocPage m.pool).1 ≠ 0
  pool : m'.pool = (allocPage m.pool).2
  entry : ∃ e, pteIsPresent e = true ∧ pteIsHuge e = false ∧ pteTable e = g ∧
    m'.mem = (m.mem.zeroFrame g).write (f, i) e

namespace NewTable

variable {root f i g : ℕ} {p : List ℕ} {m m' : Machine P} (h : NewTable root p f i g m m') (hu : TablesUsed root m)
include h

lemma fresh : Free m.pool g := by
  obtain ⟨g', hg, -, hfree, -⟩ := allocPage_fresh h.ne_zero
  have := h.alloc
  rwa [show g = g' by omega]

lemma taken : ¬ Free m'.pool g := by
  obtain ⟨g', hg, -, -, ht⟩ := allocPage_fresh h.ne_zero
  have := h.alloc
  rwa [h.pool, show g = g' by omega]

lemma pool_mono {f : ℕ} (hf : Free m'.pool f) : Free m.pool f :=
  allocPage_mono (h.pool ▸ hf)

include hu

lemma ne_of_table (hq : IsPath q) (ht : tableAt m.mem root q = some t) :
    t ≠ g := fun e => hu q t hq ht (e ▸ h.fresh)

lemma mem_of_ne (hq : IsPath q) (ht : tableAt m.mem root q = some t)
    (hne : (t, j) ≠ (f, i)) : m'.mem t j = m.mem t j := by
  obtain ⟨e, -, -, -, hm⟩ := h.entry
  rw [hm, PhysMem.write_of_ne hne, PhysMem.zeroFrame_of_ne (h.ne_of_table hu hq ht)]

lemma mem_new (j : ℕ) : m'.mem g j = 0#64 := by
  obtain ⟨e, -, -, -, hm⟩ := h.entry
  have hne : (g, j) ≠ (f, i) := fun he =>
    h.ne_of_table hu h.isPath.left h.table (congrArg Prod.fst he).symm
  rw [hm, PhysMem.write_of_ne hne, PhysMem.zeroFrame_self]

omit hu in
lemma next_self (top : Bool) : nextTable top (m'.mem f i) = some g := by
  obtain ⟨e, h1, h2, h3, hm⟩ := h.entry
  have : m'.mem f i = e := by rw [hm]; exact PhysMem.write_self (e := (f, i))
  rw [this, nextTable_some]
  exact ⟨h1, .inr h2, h3⟩

lemma tableAt_mono (hq : IsPath q) (ht : tableAt m.mem root q = some t) :
    tableAt m'.mem root q = some t := by
  induction q using List.reverseRecOn generalizing t with
  | nil => exact ht
  | append_singleton q j ih =>
    rw [tableAt_append_some] at ht ⊢
    obtain ⟨t', ht', hn⟩ := ht
    refine ⟨t', ih hq.left ht', ?_⟩
    rwa [h.mem_of_ne hu hq.left ht']
    rintro ⟨⟩
    have := (nextTable_some.mp hn).1
    rw [h.absent] at this
    cases this

lemma tableAt_cases (hq : IsPath q) (ht : tableAt m'.mem root q = some t) : tableAt m.mem root q = some t ∨
      (t = g ∧ ∃ q', q = q' ++ [i] ∧ tableAt m.mem root q' = some f) := by
  induction q using List.reverseRecOn generalizing t with
  | nil => exact .inl ht
  | append_singleton q j ih =>
    rw [tableAt_append_some] at ht
    obtain ⟨t', ht', hn⟩ := ht
    rcases ih hq.left ht' with hold | ⟨rfl, -⟩
    · by_cases he : (t', j) = (f, i)
      · cases he
        rw [h.next_self] at hn
        cases hn
        exact .inr ⟨rfl, q, rfl, hold⟩
      · rw [h.mem_of_ne hu hq.left hold he] at hn
        exact .inl (tableAt_append_some.mpr ⟨t', hold, hn⟩)
    rw [h.mem_new hu, nextTable_some, pteIsPresent_zero] at hn
    cases hn.1

lemma tableAt_self : tableAt m'.mem root (p ++ [i]) = some g :=
  tableAt_append_some.mpr ⟨f, h.tableAt_mono hu h.isPath.left h.table, h.next_self _⟩

lemma tablesUsed : TablesUsed root m' := by
  intro q t hq ht hfree
  rcases h.tableAt_cases hu hq ht with hold | ⟨rfl, -⟩
  · exact hu q t hq hold (h.pool_mono hfree)
  · exact h.taken hfree

end NewTable

/-- What a creating walk to `virt` can do: create tables on its way, or fail to get a frame. -/
inductive Extends (root virt : ℕ) : Machine P → Machine P → Prop
  | refl (m : Machine P) : Extends root virt m m
  | noFrame {m m' : Machine P} : Extends root virt m m' → (allocPage m'.pool).1 = 0 →
      Extends root virt m { m' with pool := (allocPage m'.pool).2 }
  | table {m m' m'' : Machine P} {p : List ℕ} {f i g : ℕ} : Extends root virt m m' →
      p ++ [i] <+: pathOf virt → NewTable root p f i g m' m'' → Extends root virt m m''

section Extends

variable {root virt : ℕ} {m m' m'' : Machine P}

lemma Extends.pool_mono (h : Extends root virt m m')
    (hf : Free m'.pool f) : Free m.pool f := by
  induction h with
  | refl => exact hf
  | noFrame _ _ ih => exact ih (allocPage_mono hf)
  | table _ _ hn ih => exact ih (hn.pool_mono hf)

lemma Extends.tablesUsed (h : Extends root virt m m') (hu : TablesUsed root m) :
    TablesUsed root m' := by
  induction h with
  | refl => exact hu
  | noFrame _ _ ih => intro p f hp hf hfree; exact ih p f hp hf (allocPage_mono hfree)
  | table _ _ hn ih => exact hn.tablesUsed ih

end Extends

/-- `k` tables are created on the way to an address. -/
inductive Builds (root virt : ℕ) : ℕ → Machine P → Machine P → Prop
  | refl (m : Machine P) : Builds root virt 0 m m
  | table {m m' m'' : Machine P} {k f i g : ℕ} {p : List ℕ} : Builds root virt k m m' →
      p ++ [i] <+: pathOf virt → NewTable root p f i g m' m'' → Builds root virt (k + 1) m m''

section Builds

variable {root virt j k : ℕ} {m m' m'' : Machine P}

lemma Builds.toExtends (h : Builds root virt k m m') : Extends root virt m m' := by
  induction h with
  | refl => exact .refl _
  | table _ hp hn ih => exact .table ih hp hn

lemma Builds.trans (h1 : Builds root virt j m m') (h2 : Builds root virt k m' m'') :
    Builds root virt (j + k) m m'' := by
  induction h2 with
  | refl => exact h1
  | table _ hp hn ih => exact .table (ih h1) hp hn

end Builds

lemma pagingDescend_true {m : Machine P} (hpre : p ++ [i] <+: pathOf virt) (ht : tableAt m.mem root p = some f)
    (hh : p = [] ∨ pteIsHuge (m.mem f i) = false) (hu : TablesUsed root m)
    {r : Option ℕ} {m' : Machine P} (hr : pagingDescend true (walkFlags virt) (f, i) m = (r, m')) :
    (r = none ∧ (allocPage m.pool).1 = 0 ∧
      m' = { m with pool := (allocPage m.pool).2 } ∧ pteIsPresent (m.mem f i) = false) ∨
    ∃ t k, r = some t ∧ Builds root virt k m m' ∧ tableAt m'.mem root (p ++ [i]) = some t := by
  have hread : m.mem.read (f, i) = m.mem f i := rfl
  unfold pagingDescend pagingGetOrCreate at hr
  rw [hread] at hr
  cases hpres : pteIsPresent (m.mem f i)
  · simp only [hpres, Bool.not_false, Bool.not_true, if_true, Bool.false_eq_true, if_false] at hr
    split_ifs at hr with h0
    · cases hr
      exact .inl ⟨rfl, h0, rfl, rfl⟩
    obtain ⟨g, hg, hlt, -, -⟩ := allocPage_fresh h0
    have hpfn : physToPfn (allocPage m.pool).1 = g := by
      rw [hg, physToPfn, Nat.shiftRight_eq_div_pow]; omega
    rw [hpfn] at hr
    cases hr
    have hn : NewTable root p f i g m
        { pool := (allocPage m.pool).2
          mem := (m.mem.zeroFrame g).write (f, i)
            (pteMake (allocPage m.pool).1 (walkFlags virt ||| ptePresent)) } := by
      refine ⟨isPath_initial hpre, ht, hpres, hg, h0, rfl, _, pteIsPresent_make .., ?_, ?_, rfl⟩
      · rw [hg]; exact walkFlags_huge virt
      · rw [hg]; exact pteTable_make hlt (walkFlags_frame virt)
    exact .inr ⟨g, 1, rfl, .table (.refl m) hpre hn, hn.tableAt_self hu⟩
  simp only [hpres, Bool.not_true, Bool.false_eq_true, if_false] at hr
  cases hr
  refine .inr ⟨_, 0, rfl, .refl m, ?_⟩
  refine tableAt_append_some.mpr ⟨f, ht, nextTable_some.mpr ⟨hpres, ?_, rfl⟩⟩
  rcases hh with rfl | hh
  · exact .inl rfl
  · exact .inr hh

/-- **A creating walk** only creates tables, and a walk without creation then ends where it did. It
fails for want of a frame. -/
theorem pagingWalk_builds {m : Machine P} (hu : TablesUsed root m)
    {r : Option Loc} {m' : Machine P} (hr : pagingWalk root virt true m = (r, m')) :
    ∃ m₁ k, Builds root virt k m m₁ ∧ walkLoc m₁.mem root virt = r ∧
      ((r.isSome ∧ m' = m₁) ∨ (r = none ∧ (allocPage m₁.pool).1 = 0 ∧
        m' = { m₁ with pool := (allocPage m₁.pool).2 })) := by
  have hp1 : [] ++ [pml4Index virt] <+: pathOf virt := ⟨_, rfl⟩
  have hp2 : [pml4Index virt] ++ [pdptIndex virt] <+: pathOf virt := ⟨_, rfl⟩
  have hp3 : [pml4Index virt, pdptIndex virt] ++ [pdIndex virt] <+: pathOf virt := ⟨[], rfl⟩
  have hread : ∀ (m : Machine P) f i, m.mem.read (f, i) = m.mem f i := fun _ _ _ => rfl
  unfold pagingWalk at hr
  dsimp only at hr
  -- the PML4 entry
  rcases h1 : pagingDescend true (walkFlags virt) (root, pml4Index virt) m with ⟨r1, m1⟩
  rw [h1] at hr
  rcases pagingDescend_true hp1 rfl (.inl rfl) hu h1 with ⟨rfl, z1, e1, n1⟩ | ⟨pdpt, k1, rfl, x1, t1⟩
  · cases hr
    exact ⟨m, 0, .refl m, walkLoc_of_none ⟨_, rfl⟩ rfl n1 (.inl rfl), .inr ⟨rfl, z1, e1⟩⟩
  simp only [hread] at hr
  split_ifs at hr with hh1
  · cases hr
    exact ⟨_, k1, x1, walkLoc_of_huge (by simp) ⟨_, rfl⟩ t1 hh1, .inl ⟨rfl, rfl⟩⟩
  rw [Bool.not_eq_true] at hh1
  -- the entry of the page directory pointer table
  rcases h2 : pagingDescend true (walkFlags virt) (pdpt, pdptIndex virt) m1 with ⟨r2, m2⟩
  rw [h2] at hr
  rcases pagingDescend_true hp2 t1 (.inr hh1) (x1.toExtends.tablesUsed hu) h2 with
    ⟨rfl, z2, e2, n2⟩ | ⟨pd, k2, rfl, x2, t2⟩
  · cases hr
    exact ⟨m1, k1, x1, walkLoc_of_none (p := [] ++ [pml4Index virt]) ⟨_, rfl⟩ t1 n2 (.inr hh1), .inr ⟨rfl, z2, e2⟩⟩
  dsimp only at hr
  have x2' := x1.trans x2
  split_ifs at hr with hh2
  · cases hr
    exact ⟨_, _, x2', walkLoc_of_huge (by simp) ⟨[], by simp [pathOf]⟩ t2 hh2, .inl ⟨rfl, rfl⟩⟩
  rw [Bool.not_eq_true] at hh2
  -- the entry of the page directory
  rcases h3 : pagingDescend true (walkFlags virt) (pd, pdIndex virt) m2 with ⟨r3, m3⟩
  rw [h3] at hr
  rcases pagingDescend_true hp3 t2 (.inr hh2) (x2'.toExtends.tablesUsed hu) h3 with
    ⟨rfl, z3, e3, n3⟩ | ⟨pt, k3, rfl, x3, t3⟩
  · cases hr
    exact ⟨m2, _, x2', walkLoc_of_none (p := [pml4Index virt] ++ [pdptIndex virt])
      ⟨[], by simp [pathOf]⟩ t2 n3 (.inr hh2), .inr ⟨rfl, z3, e3⟩⟩
  cases hr
  exact ⟨_, _, x2'.trans x3, walkLoc_of_tableAt t3, .inl ⟨rfl, rfl⟩⟩

end Obelisk
