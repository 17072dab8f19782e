import Obelisk.Vmm.Munmap

/-!
# Searching, mapping and faulting

The specifications of the remaining operations on a well-formed address space: `vmm_find_vma`, the
gap search, `vmm_mmap`, `vmm_brk` and `vmm_handle_page_fault`.
-/

namespace Obelisk

open KLib Relation List Option

variable {P : Type}
variable {vmas : Heap Area} {addr last n p prev q start stop : ℕ} {t : Space P} {ρ : Type} {A : ℕ → Prop}

def Area.Has (a : Area) (addr : ℕ) : Prop := a.start ≤ addr ∧ addr < a.stop

lemma vmmFindVmaLoop_spec {l : List (ℕ × Area)}
    (hs : Seg vmas prev p l last 0) (hok : ∀ y ∈ l, y.2.Ok) (ho : Ordered l) (hn : l.length < n) :
    ∃ r, vmmFindVmaLoop vmas addr n p = some r ∧
      ((∃ a, (r, a) ∈ l ∧ a.Has addr) ∨ (r = 0 ∧ ∀ y ∈ l, ¬ y.2.Has addr)) := by
  induction l generalizing prev p n with
  | nil =>
    obtain ⟨-, rfl⟩ := hs
    obtain ⟨n, rfl⟩ : ∃ k, n = k + 1 := ⟨n - 1, by simp at hn; omega⟩
    exact ⟨0, rfl, .inr ⟨rfl, fun y hy => by cases hy⟩⟩
  | cons y l ih =>
    obtain ⟨x, a⟩ := y
    obtain ⟨rfl, h0, nx, hx, hs⟩ := hs
    obtain ⟨n, rfl⟩ : ∃ k, n = k + 1 := ⟨n - 1, by simp at hn; omega⟩
    rw [length_cons] at hn
    obtain ⟨hfst, ho⟩ := pairwise_cons.mp ho
    rw [vmmFindVmaLoop, if_neg h0, hx]
    simp only [bind_eq_bind, bind_some]
    by_cases hin : a.start ≤ addr ∧ addr < a.stop
    · exact ⟨x, by rw [if_pos hin], .inl ⟨a, mem_cons_self, hin⟩⟩
    rw [if_neg hin]
    by_cases hlt : addr < a.start
    · -- the areas after this one start even later
      refine ⟨0, by rw [if_pos hlt], .inr ⟨rfl, fun y hy hc => ?_⟩⟩
      rcases mem_cons.mp hy with rfl | hy
      · exact hin hc
      have h1 := hfst y hy
      have h2 := (hok (x, a) mem_cons_self).le
      have h3 := hc.1
      dsimp only at h1 h2
      omega
    rw [if_neg hlt]
    obtain ⟨r, hr, hcase⟩ := ih hs (fun z hz => hok z (mem_cons_of_mem _ hz)) ho
      (n := n) (by omega)
    refine ⟨r, hr, ?_⟩
    rcases hcase with ⟨b, hb, hc⟩ | ⟨rfl, hnone⟩
    · exact .inl ⟨b, mem_cons_of_mem _ hb, hc⟩
    refine .inr ⟨rfl, fun y hy => ?_⟩
    rcases mem_cons.mp hy with rfl | hy
    · exact hin
    · exact hnone y hy

variable {s : Space P} {l : List (ℕ × Area)}

lemma vmmFindVma_spec (h : Listed s l) (addr : ℕ) : ∃ r, vmmFindVma addr s = some r ∧
    ((∃ a, (r, a) ∈ l ∧ a.Has addr) ∨ (r = 0 ∧ ∀ y ∈ l, ¬ y.2.Has addr)) := by
  obtain ⟨last, hs⟩ := h.seg
  exact vmmFindVmaLoop_spec hs h.ok h.ordered (by rw [h.count]; exact lt_add_one _)

lemma Ordered.unique (h : Ordered l) {x y : ℕ × Area} (hx : x ∈ l) (hy : y ∈ l)
    (hxa : x.2.Has addr) (hya : y.2.Has addr) : x = y := by
  induction l with
  | nil => cases hx
  | cons z l ih =>
    obtain ⟨hz, hl⟩ := pairwise_cons.mp h
    unfold Area.Has at hxa hya
    rcases mem_cons.mp hx with rfl | hx' <;> rcases mem_cons.mp hy with rfl | hy'
    · rfl
    · have := hz y hy'; omega
    · have := hz x hx'; omega
    · exact ih hl hx' hy'

lemma vmmFindVmaIntersectionLoop_spec (hs : Seg vmas prev p l last 0) (hn : l.length < n) :
    ∃ r, vmmFindVmaIntersectionLoop vmas start stop n p = some r ∧
      (r = 0 ∨ ∃ a, (r, a) ∈ l ∧ a.start < stop ∧ start < a.stop) := by
  induction l generalizing prev p n with
  | nil =>
    obtain ⟨-, rfl⟩ := hs
    obtain ⟨n, rfl⟩ : ∃ k, n = k + 1 := ⟨n - 1, by simp at hn; omega⟩
    exact ⟨0, rfl, .inl rfl⟩
  | cons y l ih =>
    obtain ⟨x, a⟩ := y
    obtain ⟨rfl, h0, nx, hx, hs⟩ := hs
    obtain ⟨n, rfl⟩ : ∃ k, n = k + 1 := ⟨n - 1, by simp at hn; omega⟩
    rw [length_cons] at hn
    rw [vmmFindVmaIntersectionLoop, if_neg h0, hx]
    simp only [bind_eq_bind, bind_some]
    by_cases hin : a.start < stop ∧ start < a.stop
    · exact ⟨x, by rw [if_pos hin], .inr ⟨a, mem_cons_self, hin⟩⟩
    rw [if_neg hin]
    by_cases hlt : stop ≤ a.start
    · exact ⟨0, by rw [if_pos hlt], .inl rfl⟩
    rw [if_neg hlt]
    obtain ⟨r, hr, hcase⟩ := ih hs (n := n) (by omega)
    exact ⟨r, hr, hcase.imp_right fun ⟨b, hb, hc⟩ => ⟨b, mem_cons_of_mem _ hb, hc⟩⟩

lemma vmmFindVmaIntersection_spec (h : Listed s l) (start stop : ℕ) :
    ∃ r, vmmFindVmaIntersection start stop s = some r ∧
      (r = 0 ∨ ∃ a, (r, a) ∈ l ∧ a.start < stop ∧ start < a.stop) := by
  obtain ⟨last, hs⟩ := h.seg
  exact vmmFindVmaIntersectionLoop_spec hs (by rw [h.count]; exact lt_add_one _)

lemma userSpaceEnd_lt : userSpaceEnd + pageSize < 2 ^ 64 := by decide

lemma alignUp_of_aligned {x : ℕ} (hx : x % pageSize = 0) (hlt : x ≤ userSpaceEnd) :
    alignUp x pageSize = x := by
  have hend := userSpaceEnd_lt
  have hlt' : x < 2 ^ 64 := by omega
  obtain ⟨hmod, hz | hb⟩ := alignUp_cases hlt'
  · by_cases h0 : x = 0
    · rw [hz, h0]
    · exfalso
      have := alignUp_two_pow (x := x) (k := 12) (by simp only [pageSize] at hend; omega) (by norm_num)
      rw [show (2 : ℕ) ^ 12 = pageSize from rfl, hz] at this
      simp only [pageSize] at *
      omega
  simp only [pageSize] at *
  omega

/-- **The gap search ends**: every round moves the start past one more area. -/
theorem vmmGapLoop_spec (h : Listed s l) (length : ℕ) (hs : start % pageSize = 0)
    (hn : (l.filter fun y => decide (start < y.2.stop)).length < n) :
    ∃ r, vmmGapLoop length s n start = some r ∧ ∀ a ∈ r, a % pageSize = 0 := by
  induction n generalizing start with
  | zero => omega
  | succ n ih =>
    rw [vmmGapLoop]
    cases hr : rangeEnd start length userSpaceEnd with
    | none => exact ⟨none, rfl, fun a ha => by cases ha⟩
    | some stop =>
      obtain ⟨r, hfind, hcase⟩ := vmmFindVmaIntersection_spec h start stop
      dsimp only
      rw [hfind]
      simp only [bind_eq_bind, bind_some]
      by_cases hr0 : r = 0
      · refine ⟨some start, by rw [if_pos hr0], fun a ha => ?_⟩
        cases ha
        exact hs
      rcases hcase with h0 | ⟨a, ha, -, hlt⟩
      · exact absurd h0 hr0
      obtain ⟨last, hseg⟩ := h.seg
      obtain ⟨-, nx, pv, hcell⟩ := hseg.mem_some ha
      have hok := h.ok _ ha
      rw [if_neg hr0, hcell, bind_some, alignUp_of_aligned hok.stop_aligned hok.stop_le]
      refine ih hok.stop_aligned (lt_of_lt_of_le ?_ (Nat.lt_succ_iff.mp hn))
      have hsub : (l.filter fun y => decide (a.stop < y.2.stop)) =
          (l.filter fun y => decide (start < y.2.stop)).filter fun y => decide (a.stop < y.2.stop) := by
        rw [List.filter_filter]
        refine filter_congr fun y _ => ?_
        rw [← Bool.decide_and]
        exact decide_eq_decide.mpr ⟨fun h' => ⟨h', hlt.trans h'⟩, fun h' => h'.1⟩
      rw [hsub, length_filter_lt_length_iff_exists]
      exact ⟨(r, a), mem_filter.mpr ⟨ha, by simpa using hlt⟩, by simp⟩

lemma vmmFindVmaIntersectionLoop_zero {vmas : Heap Area} {n prev last : ℕ}
    (hs : Seg vmas prev p l last 0) (hok : ∀ y ∈ l, y.2.Ok) (ho : Ordered l)
    (h : vmmFindVmaIntersectionLoop vmas start stop n p = some 0) :
    ∀ y ∈ l, ¬ (y.2.start < stop ∧ start < y.2.stop) := by
  induction l generalizing prev p n with
  | nil => exact fun y hy => absurd hy not_mem_nil
  | cons y l ih =>
    obtain ⟨x, a⟩ := y
    obtain ⟨rfl, h0, nx, hx, hs⟩ := hs
    obtain ⟨hafter, ho⟩ := pairwise_cons.mp ho
    cases n with
    | zero => exact nomatch h
    | succ n =>
      rw [vmmFindVmaIntersectionLoop, if_neg h0, hx] at h
      simp only [bind_eq_bind, bind_some] at h
      split_ifs at h with hin hdone
      · exact absurd (some.inj h) h0
      · intro y hy
        have hle := (hok (x, a) mem_cons_self).le
        rcases mem_cons.mp hy with rfl | hy
        · exact hin
        have hlater := hafter y hy
        dsimp only at hle hlater
        omega
      intro y hy
      rcases mem_cons.mp hy with rfl | hy
      · exact hin
      · exact ih hs (fun z hz => hok z (mem_cons_of_mem _ hz)) ho h y hy

lemma viewAt_isSome : (viewAt l p).isSome ↔ ∃ y ∈ l, y.2.Has p := by
  rw [viewAt, findSome?_isSome_iff]
  refine exists_congr fun y => and_congr_right fun _ => ?_
  rw [Area.view]
  split_ifs with h
  · exact iff_of_true rfl h
  · exact iff_of_false Bool.false_ne_true h

lemma Listed.gap_clear (h : Listed s l)
    (hfind : vmmFindVmaIntersection start stop s = some 0) (h1 : start ≤ p) (h₂ : p < stop) :
    ¬ (viewAt l p).isSome := by
  intro hp
  obtain ⟨y, hy, hin⟩ := viewAt_isSome.mp hp
  obtain ⟨last, hseg⟩ := h.seg
  exact vmmFindVmaIntersectionLoop_zero hseg h.ok h.ordered hfind y hy ⟨hin.1.trans_lt h₂, h1.trans_lt hin.2⟩

/-! ## Mapping -/

lemma exists_insertPoint (l : List (ℕ × Area)) (key : ℕ) : ∃ l1 l2, l = l1 ++ l2 ∧
    (∀ y ∈ l1, y.2.start < key) ∧ ∀ y ∈ l2.head?, key ≤ y.2.start := by
  induction l with
  | nil => exact ⟨[], [], rfl, by simp, by simp⟩
  | cons x l ih =>
    by_cases hx : x.2.start < key
    · obtain ⟨l1, l2, rfl, h₁, h₂⟩ := ih
      refine ⟨x :: l1, l2, rfl, fun y hy => ?_, h₂⟩
      rcases mem_cons.mp hy with rfl | hy
      · exact hx
      · exact h₁ y hy
    refine ⟨[], x :: l, rfl, by simp, fun y hy => ?_⟩
    cases hy
    exact not_lt.mp hx

lemma Listed.notMem_of_none (h : Listed s l) (hq : s.mm.vmas q = none) : q ∉ l.map Prod.fst := by
  obtain ⟨last, hseg⟩ := h.seg
  intro hmem
  have := hseg.isSome hmem
  rw [hq] at this
  cases this

lemma Listed.of_vmas (h : Listed s l) (hv : t.mm.vmas = s.mm.vmas)
    (ha : t.as.vmaList = s.as.vmaList) (hc : t.as.vmaCount = s.as.vmaCount) : Listed t l :=
  ⟨by rw [hv, ha]; exact h.seg, h.nodup, h.ptr_lt, hc.trans h.count, h.ok, h.ordered⟩

variable [FramePool P]

/-- What every operation of an address space guarantees: it returns, with a well-formed list,
without empty areas if there were none and `G` holds. -/
def Returns {ρ : Type} (A : ℕ → Prop) (s : Space P) (l : List (ℕ × Area)) (G : Prop)
    (r : Option (ρ × Space P)) : Prop :=
  ∃ x t l', r = some (x, t) ∧ Listed t l' ∧ SpaceStep A s t ∧ (NonEmpty l → G → NonEmpty l')

lemma Returns.same (h : Listed s l) (G : Prop) (x : ρ) : Returns A s l G (some (x, s)) :=
  ⟨x, s, l, rfl, h, .refl .., fun hl _ => hl⟩

lemma vmmMunmap_returns (h : Listed s l) (addr length : ℕ) (G : Prop) :
    Returns UserPage s l G (vmmMunmap addr length s) := by
  obtain ⟨r, t, l', ht, hl, hstep, hcase⟩ := vmmMunmap_spec h addr length
  refine ⟨r, t, l', ht, hl, hstep, fun hne _ => ?_⟩
  rcases hcase with ⟨-, -, rfl, -⟩ | ⟨-, -, ⟨-, rfl⟩ | ⟨hcut, -⟩⟩
  · exact hne
  · exact hne
  · exact hcut.nonEmpty hne

section Map

variable {u : Space P} {file : ℕ} {prot flags : BitVec 32} {offset : BitVec 64}

/-- `vmm_mmap` once its range is free: it fails and leaves the areas as they are, or it inserts the
area, which it unmaps again when the file cannot be read in. -/
def Inserts (s : Space P) (l : List (ℕ × Area)) (a : Area) (length : ℕ) (r : Option (ℕ × Space P)) : Prop :=
  (∃ t, r = some (mapFailed, t) ∧ Listed t l ∧ AreasOnly s t) ∨
  ∃ q l1 l2 t, l = l1 ++ l2 ∧ Listed t (l1 ++ (q, a) :: l2) ∧ SpaceStep (PageIn a.start a.stop) s t ∧
    (r = some (a.start, t) ∨ r = (vmmMunmap a.start length t).map fun r => (mapFailed, r.2))

lemma vmmMmapInsert_spec (h : Listed s l) (h0 : AreasOnly u s) (length : ℕ) (prot flags : BitVec 32) (file : ℕ) {c : Cell Area}
    (hq : s.mm.vmas q = some c) (hok : c.val.Ok) (hnot : q ∉ l.map Prod.fst) (hq0 : q ≠ 0) (hqlt : q < 2 ^ 64) :
    Inserts u l c.val length (vmmMmapInsert q c.val.start c.val.stop length prot flags file s) := by
  obtain ⟨l1, l2, rfl, h₁, h₂⟩ := exists_insertPoint l c.val.start
  unfold vmmMmapInsert
  rcases vmmInsertVma_spec h hq hnot hq0 hqlt hok h₁ h₂ with
    ⟨hins, -⟩ | ⟨t, hins, hl, hao, -⟩ <;> rw [hins] <;> simp only [bind_eq_bind, bind_some]
  · rw [if_pos (by decide), vmmFreeVma, if_neg hq0]
    exact .inl ⟨_, rfl, h.update_of_notMem hnot none, h0.machine, h0.pt, h0.brkStart, h0.brkEnd⟩
  rw [if_neg (by decide)]
  have hstep : SpaceStep (PageIn c.val.start c.val.stop) u t := h0.spaceStep.trans hao.spaceStep
  have hfill := vmmPopulate_steps t.as.pt prot (pageCount c.val.start c.val.stop) c.val.start t.mm
  split_ifs
  · refine .inr ⟨q, l1, l2, _, rfl, ?_, ?_, .inl rfl⟩
    · exact hl.of_vmas (vmmPopulate_vmas ..) rfl rfl
    · exact hstep.trans ⟨hfill, rfl, rfl, rfl⟩
  · refine .inr ⟨q, l1, l2, _, rfl, ?_, ?_, .inr map_eq_bind.symm⟩
    · exact hl.of_vmas (vmmPopulate_vmas ..) rfl rfl
    · exact hstep.trans ⟨hfill, rfl, rfl, rfl⟩
  · exact .inr ⟨q, l1, l2, t, rfl, hl, hstep, .inl rfl⟩

theorem vmmMmapArea_spec (h : Listed s l) (length : ℕ)
    (hok : (⟨start, stop, vmmMmapFlags prot flags, prot, file, offset⟩ : Area).Ok) :
    Inserts s l ⟨start, stop, vmmMmapFlags prot flags, prot, file, offset⟩ length
      (vmmMmapArea start stop length prot flags file offset s) := by
  unfold vmmMmapArea
  rcases vmmCreateVma_cases start stop (vmmMmapFlags prot flags) s.mm with
    ⟨ks, hk⟩ | ⟨q, ks, hq0, hqlt, hqn, hk⟩ <;> rw [hk]
  · exact .inl ⟨_, rfl, h.of_vmas rfl rfl rfl, rfl, rfl, rfl, rfl⟩
  dsimp only
  rw [if_neg hq0, Heap.modify_of_some (Function.update_self ..)]
  simp only [bind_eq_bind, bind_some]
  have hnot := h.notMem_of_none hqn
  have hk1 : Listed ({ s with mm := { s.mm with kallocs := ks } } : Space P) l :=
    h.of_vmas rfl rfl rfl
  have hl := (hk1.update_of_notMem hnot
    (some ⟨⟨start, stop, vmmMmapFlags prot flags, 0, 0, 0⟩, 0, 0⟩)).update_of_notMem hnot
    (some ⟨⟨start, stop, vmmMmapFlags prot flags, prot, file, offset⟩, 0, 0⟩)
  exact vmmMmapInsert_spec hl (u := s) ⟨rfl, rfl, rfl, rfl⟩ length prot flags file (Function.update_self ..) hok hnot hq0 hqlt

lemma Inserts.returns {a : Area} {length : ℕ} {r : Option (ℕ × Space P)} (h : Inserts s l a length r) (hok : a.Ok) :
    Returns UserPage s l (a.start < a.stop) r := by
  obtain ⟨t, ht, hl, hao⟩ | ⟨q, l1, l2, t, rfl, hl, hstep, hcase⟩ := h
  · exact ⟨_, t, l, ht, hl, hao.spaceStep, fun hne _ => hne⟩
  have hstep' : SpaceStep UserPage s t := { hstep with
    machine := hstep.machine.mono fun a ha =>
      ⟨PageIn.aligned ha hok.start_aligned, (PageIn.bounds ha).2.trans_le hok.stop_le⟩ }
  have hne : NonEmpty (l1 ++ l2) → a.start < a.stop → NonEmpty (l1 ++ (q, a) :: l2) := by
    intro hne hlt y hy
    rw [mem_append, mem_cons] at hy
    rcases hy with hy | rfl | hy
    · exact hne y (mem_append_left _ hy)
    · exact hlt
    · exact hne y (mem_append_right _ hy)
  obtain ht | ht := hcase
  · exact ⟨a.start, t, _, ht, hl, hstep', hne⟩
  obtain ⟨r, u, l', hu, hlu, hstep'', hne'⟩ := vmmMunmap_returns hl a.start length (a.start < a.stop)
  rw [hu] at ht
  exact ⟨mapFailed, u, l', ht, hlu, hstep'.trans hstep'', fun hn hg => hne' (hne hn hg) hg⟩

end Map

omit [FramePool P] in
lemma vmmMmapStart_spec (h : Listed s l) (addr length : ℕ) (flags : BitVec 32) :
    ∃ r, vmmMmapStart addr length flags s = some r ∧ ∀ a ∈ r, a % pageSize = 0 := by
  unfold vmmMmapStart
  split_ifs with hfixed hmask
  · exact ⟨none, rfl, by simp⟩
  · refine ⟨some (alignDown addr pageSize), rfl, fun a ha => ?_⟩
    cases ha
    exact alignDown_aligned addr
  refine vmmGapLoop_spec h length (by decide) (Nat.lt_succ_of_le ?_)
  rw [h.count]
  exact length_filter_le _ _

lemma alignUp_length {length : ℕ} (h0 : length ≠ 0) (hle : length ≤ 2 ^ 64 - pageSize) :
    0 < alignUp length pageSize := by
  have hlt : length + (2 ^ 12 - 1) < 2 ^ 64 := by simp only [pageSize] at hle; omega
  have := alignUp_two_pow (k := 12) hlt (by norm_num)
  rw [show (2 : ℕ) ^ 12 = pageSize from rfl] at this
  rw [this]
  simp only [pageSize]
  omega

lemma vmmMmap_cases (h : Listed s l) (addr length : ℕ) (prot flags : BitVec 32) (file : ℕ) (offset : BitVec 64) :
    vmmMmap addr length prot flags file offset s = some (mapFailed, s) ∨
    ∃ start, length ≠ 0 ∧ (⟨start, start + alignUp length pageSize, vmmMmapFlags prot flags, prot, file,
        offset⟩ : Area).Ok ∧
      ((hasFlag flags mapFixed = true ∧ start = alignDown addr pageSize ∧
        vmmMmap addr length prot flags file offset s = (vmmMunmap start (alignUp length pageSize) s).bind fun r =>
            if r.1 ≠ 0 then some (mapFailed, r.2)
            else vmmMmapArea start (start + alignUp length pageSize) (alignUp length pageSize) prot
              flags file offset r.2) ∨
      (hasFlag flags mapFixed = false ∧
        (∀ p, start ≤ p → p < start + alignUp length pageSize → ¬ (viewAt l p).isSome) ∧
        vmmMmap addr length prot flags file offset s =
          vmmMmapArea start (start + alignUp length pageSize) (alignUp length pageSize) prot flags
            file offset s)) := by
  rw [vmmMmap]
  by_cases h0 : length = 0
  · rw [if_pos h0]
    exact .inl rfl
  rw [if_neg h0]
  by_cases hargs : !hasFlag flags mapAnonymous ∧
      (file = 0 ∨ offset.msb ∨ hasFlag offset (BitVec.ofNat 64 (pageSize - 1)))
  · rw [if_pos hargs]
    exact .inl rfl
  rw [if_neg hargs]
  obtain ⟨r, hstart, haligned⟩ := vmmMmapStart_spec h addr (alignUp length pageSize) flags
  dsimp only
  rw [hstart]
  simp only [bind_eq_bind, bind_some]
  cases r with
  | none => exact .inl rfl
  | some start =>
    dsimp only
    cases hr : rangeEnd start (alignUp length pageSize) userSpaceEnd with
    | none => exact .inl rfl
    | some stop =>
      obtain ⟨rfl, hend, -⟩ := rangeEnd_some hr
      have has := haligned start rfl
      have hok : (⟨start, start + alignUp length pageSize, vmmMmapFlags prot flags, prot, file,
          offset⟩ : Area).Ok := by
        refine ⟨le_self_add, has, ?_, hend⟩
        dsimp only
        rw [Nat.add_mod, has, alignUp_mod]
        rfl
      dsimp only
      split_ifs with hfixed
      · refine .inr ⟨start, h0, hok, .inl ⟨hfixed, ?_, rfl⟩⟩
        rw [vmmMmapStart, if_pos hfixed] at hstart
        split_ifs at hstart
        · exact nomatch hstart
        · exact (some.inj (some.inj hstart)).symm
      obtain ⟨v, hv, -⟩ := vmmFindVmaIntersection_spec h start (start + alignUp length pageSize)
      rw [hv, bind_some]
      split_ifs with hv0
      · exact .inl rfl
      obtain rfl := not_not.mp hv0
      exact .inr ⟨start, h0, hok, .inr ⟨Bool.eq_false_of_not_eq_true hfixed, fun p => h.gap_clear hv, rfl⟩⟩

/-- **`vmm_mmap`.** The new area is not empty when rounding up the length does not wrap. -/
theorem vmmMmap_returns (h : Listed s l) (addr length : ℕ) (prot flags : BitVec 32) (file : ℕ)
    (offset : BitVec 64) : Returns UserPage s l (length ≤ 2 ^ 64 - pageSize)
      (vmmMmap addr length prot flags file offset s) := by
  obtain hfail | ⟨start, h0, hok, hcase⟩ := vmmMmap_cases h addr length prot flags file offset
  · rw [hfail]
    exact .same h _ _
  have hne : length ≤ 2 ^ 64 - pageSize → start < start + alignUp length pageSize := fun hle =>
    Nat.lt_add_of_pos_right (alignUp_length h0 hle)
  obtain ⟨-, -, he⟩ | ⟨-, -, he⟩ := hcase <;> rw [he]
  · obtain ⟨r, t, l', ht, hl, hstep, hn⟩ := vmmMunmap_returns h start (alignUp length pageSize) True
    rw [ht, bind_some]
    split_ifs
    · exact ⟨_, _, _, rfl, hl, hstep, fun hl _ => hn hl trivial⟩
    obtain ⟨x, u, m, hu, hlu, hstep', hn'⟩ := (vmmMmapArea_spec hl _ hok).returns hok
    exact ⟨x, u, m, hu, hlu, hstep.trans hstep', fun hl hg => hn' (hn hl trivial) (hne hg)⟩
  obtain ⟨x, u, m, hu, hlu, hstep', hn'⟩ := (vmmMmapArea_spec h _ hok).returns hok
  exact ⟨x, u, m, hu, hlu, hstep', fun hl hg => hn' hl (hne hg)⟩

lemma vmmHandlePageFault_returns (h : Listed s l) (addr : ℕ) (errorCode : BitVec 32) (G : Prop) :
    Returns UserPage s l G (vmmHandlePageFault addr errorCode s) := by
  obtain ⟨r, hr, hcase⟩ := vmmFindVma_spec h addr
  unfold vmmHandlePageFault
  rw [hr]
  simp only [bind_eq_bind, bind_some]
  by_cases hr0 : r = 0
  · rw [if_pos hr0]; exact .same h _ _
  rw [if_neg hr0]
  rcases hcase with ⟨a, ha, hin⟩ | ⟨h0, -⟩
  swap
  · exact absurd h0 hr0
  obtain ⟨last, hseg⟩ := h.seg
  obtain ⟨-, nx, pv, hcell⟩ := hseg.mem_some ha
  rw [hcell, bind_some]
  split_ifs
  · exact .same h _ _
  refine ⟨_, _, l, rfl, h.setMachine _, ⟨?_, rfl, rfl, rfl⟩, fun hl _ => hl⟩
  refine (handleFault_steps s.as.pt _ a.prot s.mm.machine).mono ?_
  rintro p rfl
  refine ⟨alignDown_aligned addr, ?_⟩
  have h1 := alignDown_le addr pageSize
  have h2 := (h.ok _ ha).stop_le
  have h3 := hin.2
  dsimp only at h2
  omega

lemma vmmBrk_listed (h : Listed s l) (addr : ℕ) : Listed (vmmBrk addr s).2 l := by
  have hstep := vmmBrk_step addr s
  generalize vmmBrk addr s = r at hstep ⊢
  cases hstep with
  | same => exact h
  | @grow b m => cases b <;> exact h.of_vmas rfl rfl rfl
  | shrink => exact h.of_vmas rfl rfl rfl

end Obelisk
