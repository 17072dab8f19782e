import Mathlib.Order.Lattice.Nat
import Obelisk.Vmm.ClonePages
import Obelisk.Vmm.Fresh

/-!
# Cloning an address space

`vmm_clone_address_space` goes through the areas of the parent and copies the pages mapped in them.
-/

namespace Obelisk

open KLib Relation Function Finset Option FramePool CountedPool

variable {n0 v : ℕ} {p : List ℕ} {mem : PhysMem}
variable {k : ℕ} {P : Type} {K : ℕ → Prop} {l : List (ℕ × Area)}

def areaPages (l : List (ℕ × Area)) : List ℕ :=
  l.flatMap fun x => List.range' x.2.start (pageCount x.2.start x.2.stop) pageSize

lemma mem_areaPages (hok : ∀ x ∈ l, x.2.Ok) :
    v ∈ areaPages l ↔ v % pageSize = 0 ∧ ∃ x ∈ l, x.2.Has v := by
  have hone : ∀ x ∈ l, v ∈ List.range' x.2.start (pageCount x.2.start x.2.stop) pageSize ↔
      v % pageSize = 0 ∧ x.2.Has v := by
    intro x hx
    have hs := (hok x hx).start_aligned
    have ht := (hok x hx).stop_aligned
    have hfill := pageCount_mul hs ht (hok x hx).le
    generalize pageCount x.2.start x.2.stop = n at hfill
    rw [List.mem_range']
    simp only [Area.Has, pageSize] at *
    constructor
    · rintro ⟨i, hi, rfl⟩
      omega
    intro hv
    exact ⟨(v - x.2.start) / 4096, by omega, by omega⟩
  rw [areaPages, List.mem_flatMap]
  constructor
  · rintro ⟨x, hx, hv⟩
    obtain ⟨h1, h2⟩ := (hone x hx).mp hv
    exact ⟨h1, x, hx, h2⟩
  rintro ⟨h1, x, hx, h2⟩
  exact ⟨x, hx, (hone x hx).mpr ⟨h1, h2⟩⟩

lemma areaPages_sorted (hok : ∀ x ∈ l, x.2.Ok) (ho : Ordered l) :
    (areaPages l).Pairwise (· < ·) := by
  rw [areaPages, List.pairwise_flatMap]
  refine ⟨fun x _ => List.pairwise_lt_range' pageSize (by decide), ?_⟩
  refine List.Pairwise.imp_of_mem (fun {x y} hx hy hxy v hv w hw => ?_) ho
  have hfill := pageCount_mul (hok x hx).start_aligned (hok x hx).stop_aligned (hok x hx).le
  generalize pageCount x.2.start x.2.stop = n at hfill hv
  obtain ⟨i, hi, rfl⟩ := List.mem_range'.mp hv
  obtain ⟨j, -, rfl⟩ := List.mem_range'.mp hw
  simp only [pageSize] at *
  omega

section Loop

variable {P : Type} [CountedPool P] {src n vma : ℕ} {s : Space P} {lc : List (ℕ × Area)}

lemma vmmCloneLoop_succ (src n : ℕ) (h : Listed s lc) {v : Cell Area} (hv : s.mm.vmas vma = some v)
    (h0 : vma ≠ 0) (hok : v.val.Ok) :
    (∃ t, vmmCloneLoop src (n + 1) vma s = some (false, t) ∧ Listed t lc) ∨
    ∃ t lc' q, Listed t lc' ∧ AreasOnly s t ∧ s.mm.vmas q = none ∧
      (∀ y ∈ lc'.map Prod.fst, y = q ∨ y ∈ lc.map Prod.fst) ∧
      (∀ y, y ≠ q → y ∉ lc.map Prod.fst → t.mm.vmas y = s.mm.vmas y) ∧
      vmmCloneLoop src (n + 1) vma s =
        if (clonePages src s.as.pt (pageCount v.val.start v.val.stop) v.val.start s.mm.machine).1 then
          vmmCloneLoop src n v.next (t.setMachine (clonePages src s.as.pt
            (pageCount v.val.start v.val.stop) v.val.start s.mm.machine).2)
        else some (false, t.setMachine (clonePages src s.as.pt
            (pageCount v.val.start v.val.stop) v.val.start s.mm.machine).2) := by
  rw [vmmCloneLoop, if_neg h0, hv]
  simp only [bind_eq_bind, bind_some]
  rcases vmmCreateVma_cases v.val.start v.val.stop v.val.flags s.mm with
    ⟨ks, hk⟩ | ⟨q, ks, hq0, hqlt, hqn, hk⟩
  · rw [hk]
    exact .inl ⟨_, rfl, h.of_vmas rfl rfl rfl⟩
  rw [hk]
  dsimp only
  rw [if_neg hq0, Heap.modify_of_some (update_self ..)]
  simp only [bind_some, update_idem]
  have hnot := h.notMem_of_none hqn
  have hk1 : Listed ({ s with mm := { s.mm with kallocs := ks } } : Space P) lc :=
    h.of_vmas rfl rfl rfl
  obtain ⟨l1, l2, rfl, h1, h2⟩ := exists_insertPoint lc v.val.start
  have hlist := hk1.update_of_notMem hnot (some (⟨v.val, 0, 0⟩ : Cell Area))
  have hcell : (update s.mm.vmas q (some (⟨v.val, 0, 0⟩ : Cell Area))) q =
      some ⟨v.val, 0, 0⟩ := update_self ..
  have hframe : ∀ y, y ≠ q →
      update s.mm.vmas q (some (⟨v.val, 0, 0⟩ : Cell Area)) y = s.mm.vmas y :=
    fun y hy => update_of_ne hy _ _
  right
  rcases vmmInsertVma_spec hlist hcell hnot hq0 hqlt hok h1 h2 with
    ⟨hins, -⟩ | ⟨t, hins, hl, hao, hheap⟩
  · refine ⟨_, _, q, hlist, ⟨rfl, rfl, rfl, rfl⟩, hqn, fun y hy => .inr hy, fun y hy _ => hframe y hy, ?_⟩
    refine (congrArg (fun r => Option.bind r _) hins).trans ?_
    rfl
  refine ⟨t, _, q, hl, ⟨hao.machine, hao.pt, hao.brkStart, hao.brkEnd⟩, hqn, ?_, ?_, ?_⟩
  · intro y hy
    simp only [List.map_append, List.map_cons, List.mem_append, List.mem_cons] at hy ⊢
    tauto
  · exact fun y hy hy' => (hheap y hy hy').trans (hframe y hy)
  refine (congrArg (fun r => Option.bind r _) hins).trans ?_
  rw [bind_some, show t.as.pt = s.as.pt from hao.pt, show t.mm.machine = s.mm.machine from hao.machine]

lemma vmmCloneLoop_spec {S : Finset (List ℕ)} {mem0 : PhysMem}
    (hsrc : Frozen src K mem0) (hK : K 0) (hS : OneUpper S) {prev last : ℕ}
    (hs : Seg s.mm.vmas prev vma l last 0) (hok : ∀ x ∈ l, x.2.Ok) (hlen : l.length < n)
    (h : Listed s lc) (hdisj : ∀ y ∈ l.map Prod.fst, y ∉ lc.map Prod.fst)
    (hsort : (areaPages l).Pairwise (· < ·))
    (hsub : ∀ v ∈ areaPages l, mapped mem0 src v = true → tablePaths v ⊆ S) :
    ∃ b t, vmmCloneLoop src n vma s = some (b, t) ∧ (∃ lc', Listed t lc') ∧
      (b = true → t.as.pt = s.as.pt ∧ ∀ done, (∀ v ∈ areaPages l, v ∉ done) →
        CloneState src s.as.pt K S mem0 n0 done s.mm.machine →
        CloneState src s.as.pt K S mem0 n0 (done ++ areaPages l) t.mm.machine) := by
  induction l generalizing prev vma n s lc with
  | nil =>
    obtain ⟨-, rfl⟩ := hs
    obtain ⟨n, rfl⟩ : ∃ k, n = k + 1 := ⟨n - 1, by simp at hlen; omega⟩
    refine ⟨true, s, rfl, ⟨lc, h⟩, fun _ => ⟨rfl, fun done _ hst => ?_⟩⟩
    simpa [areaPages] using hst
  | cons x l ih =>
    obtain ⟨x, a⟩ := x
    obtain ⟨rfl, h0, nx, hx, hs⟩ := hs
    obtain ⟨n, rfl⟩ : ∃ k, n = k + 1 := ⟨n - 1, by simp at hlen; omega⟩
    have hpages : areaPages ((x, a) :: l) =
        List.range' a.start (pageCount a.start a.stop) pageSize ++ areaPages l := List.flatMap_cons ..
    rw [hpages] at hsort hsub ⊢
    obtain ⟨-, hsort', hlt⟩ := List.pairwise_append.mp hsort
    obtain ⟨hok1, hok'⟩ := List.forall_mem_cons.mp hok
    rw [List.map_cons] at hdisj
    obtain ⟨-, hdisj'⟩ := List.forall_mem_cons.mp hdisj
    rcases vmmCloneLoop_succ src n h hx h0 hok1 with
      ⟨t, ht, hl⟩ | ⟨t, lc', q, hl, hao, hq, hptr, hheap, heq⟩
    · exact ⟨false, t, ht, ⟨lc, hl⟩, fun hb => by cases hb⟩
    rw [heq]
    generalize hcp : clonePages src s.as.pt (pageCount a.start a.stop) a.start s.mm.machine = r
    obtain ⟨ok, m⟩ := r
    cases ok with
    | false => exact ⟨false, _, rfl, ⟨lc', hl.setMachine m⟩, fun hb => by cases hb⟩
    | true =>
      -- the parent's areas are not among the cells that have changed
      have hne : ∀ y ∈ l.map Prod.fst, y ≠ q := by
        rintro y hy rfl
        have := hs.isSome hy
        rw [hq] at this
        cases this
      have hs' : Seg t.mm.vmas x nx l last 0 :=
        hs.congr fun y hy => hheap y (hne y hy) (hdisj' y hy)
      obtain ⟨b, u, hu, hlist, hstate⟩ := ih (n := n) (s := t.setMachine m) hs' hok'
        (by simp at hlen; omega) (hl.setMachine m)
        (fun y hy hy' => (hptr y hy').elim (hne y hy) (hdisj' y hy)) hsort'
        (fun v hv => hsub v (List.mem_append_right _ hv))
      have hpt : (t.setMachine m).as.pt = s.as.pt := hao.pt
      rw [hpt] at hstate
      refine ⟨b, u, hu, hlist, fun hb => ⟨(hstate hb).1, fun done hdone hst => ?_⟩⟩
      rw [← List.append_assoc]
      refine (hstate hb).2 _ (fun v hv hv' => ?_) (clonePages_state hsrc hK hS hst (fun v hv => ?_) hcp)
      · rcases List.mem_append.mp hv' with hv' | hv'
        · exact hdone v (List.mem_append_right _ hv) hv'
        · exact absurd (hlt v hv' v hv) (lt_irrefl v)
      have hmem := List.mem_append_left (areaPages l) hv
      refine ⟨?_, hdone v hmem, hsub v hmem⟩
      obtain ⟨hal, y, hy, hhas⟩ := (mem_areaPages (l := [(x, a)]) (by simpa using hok1)).mp
        (show v ∈ areaPages [(x, a)] by simpa [areaPages] using hv)
      obtain rfl := List.mem_singleton.mp hy
      exact ⟨hal, hhas.2.trans_le hok1.stop_le⟩

end Loop

/-! ## The kernel's tables and the parent's -/

section Kernel

variable {P : Type} [FramePool P] {k r : ℕ} {K D : ℕ → Prop} {L : Set Loc} {m : Machine P}

lemma userPage_path (hv : UserPage v) (hp : p <+: pathOf v) : ¬ KernelPath p := by
  rintro ⟨i, hi, h256⟩
  have hlow := lowPage_index hv.2
  cases p with
  | nil => cases hi
  | cons j p =>
    cases hi
    have := (List.cons_prefix_cons.mp hp).1
    omega

def SharesKernel (k r : ℕ) (mem : PhysMem) : Prop :=
  ∀ i, 256 ≤ i → i < 512 → pteIsPresent (mem k i) = true → mem r i = mem k i

lemma SharesKernel.tableAt (h : SharesKernel k r mem) {f : ℕ}
    (hp : IsPath p) (hkp : KernelPath p) (ht : tableAt mem k p = some f) :
    tableAt mem r p = some f :=
  tableAt_row h (fun _ _ _ _ _ => rfl) hp hkp ht

variable (h : Owns r K D L m) (hrow : SharesKernel k r m.mem)
include h hrow

/-- **The kernel's tables** are intact as long as an address space owns its own frames. -/
theorem kernelTable_later (hk : K k) (h0 : K 0) : KernelTable k m where
  used := fun p f hp hkp ht => h.used p f hp (hrow.tableAt hp hkp ht)
  level := fun p q f hp hq hkp hkq h1 h2 =>
    h.level p q f hp hq (hrow.tableAt hp hkp h1) (hrow.tableAt hq hkq h2)
  huge := by
    intro p f i hp hkp ht
    refine h.huge p f i hp ?_ (hrow.tableAt hp.left hkp ht)
    rintro rfl
    obtain ⟨j, hj, -⟩ := hkp
    cases hj
  self := h.pinned_used k hk
  self_table := fun p hp hkp ht => h.pinned_table k hk p hp (hrow.tableAt hp hkp ht)
  zero := h.pinned_used 0 h0
  zero_table := fun p hp hkp ht => h.pinned_table 0 h0 p hp (hrow.tableAt hp hkp ht)

lemma Owns.frozen (hD : ∀ v, pml4Index v < 256 → D v) :
    Frozen r (fun f => ¬ Free m.pool f ∧ NoKernelTable k m.mem f) m.mem where
  tables := by
    intro v hv p f hpre ht
    have hp : IsPath p := isPath_initial hpre
    refine ⟨h.used p f hp ht, fun q hq hkq hq' => ?_⟩
    -- a table of the kernel half is on a path of the kernel half
    have hsep := h.half p q f hp hq ht (hrow.tableAt hq hkq hq')
    exact userPage_path hv hpre (hsep.elim (fun he => he ▸ hkq) (fun hb => hb.1))
  pages := by
    intro v e hv he
    obtain ⟨l, hl, rfl⟩ := entryAt_some.mp he
    have hmem := h.cover v (hD v (lowPage_index hv.2)) l hl
    refine ⟨⟨(h.frame hmem).used, fun p hp hkp ht => ?_⟩, (h.frame hmem).ne⟩
    exact (h.frame hmem).table p hp (hrow.tableAt hp hkp ht)

end Kernel

lemma newPml4_sharesKernel {r : ℕ} (hne : k ≠ r) (mem : PhysMem) :
    SharesKernel k r (newPml4 k r mem) := by
  intro i hi hlt _
  rw [newPml4, update_self, update_of_ne hne, if_pos ⟨hi, hlt⟩]

lemma Reached.sharesKernel [FramePool P] {L0 L : Set Loc}
    {s0 s : Space P} (hr : Reached K L0 L s0 s) (h₀ : SpaceInv K L0 s0) (hk : K k)
    (h : SharesKernel k s0.as.pt s0.mm.machine.mem) : SharesKernel k s.as.pt s.mm.machine.mem := by
  intro i hi hlt hp
  have hrow : s.mm.machine.mem k = s0.mm.machine.mem k := hr.steps.mem_pinned h₀.owns hk
  rw [hrow] at hp ⊢
  have htop := h i hi hlt hp
  rw [hr.pt, ← htop]
  exact hr.steps.top_entry h₀.owns (htop ▸ hp)

section Start

variable {P : Type} [CountedPool P] {k c src : ℕ} {m : Machine P} {pages : List ℕ}

lemma tablesFor_path (huser : ∀ v ∈ pages, UserPage v)
    (hp : p ∈ tablesFor mem src pages) : ¬ KernelPath p := by
  obtain ⟨v, hv, hpv⟩ := mem_biUnion.mp hp
  exact userPage_path (huser v (List.mem_filter.mp (List.mem_toFinset.mp hv)).1) (initial_of_mem hpv)

lemma oneUpper_tablesFor (huser : ∀ v ∈ pages, UserPage v) : OneUpper (tablesFor mem src pages) :=
  ⟨fun _ => isPath_tablesFor, 0, fun _ hp hkp => absurd hkp (tablesFor_path huser hp)⟩

lemma cloneInv_start (src : ℕ) (hk : KernelTable k m) (hfree : Free m.pool c) {pool : P}
    (hmono : ∀ f, Free pool f → Free m.pool f) (hroot : ¬ Free pool c)
    (huser : ∀ v ∈ pages, UserPage v) :
    CloneInv src c (fun f => ¬ Free m.pool f ∧ NoKernelTable k m.mem f)
      (tablesFor m.mem src pages) m.mem (count pool) [] ⟨pool, newPml4 k c m.mem⟩ ∅ := by
  have hown := newPml4_owns (K := fun f => ¬ Free m.pool f ∧ NoKernelTable k m.mem f)
    (D := fun v => pml4Index v < 256) hk hfree hmono hroot (fun f hf => hf) (fun v hv => hv)
  have hmiss : missing (newPml4 k c m.mem) c (tablesFor m.mem src pages) =
      tablesFor m.mem src pages := by
    refine filter_true_of_mem fun p hp => ?_
    by_contra hsome
    obtain ⟨f, hf⟩ := ne_none_iff_exists'.mp hsome
    rcases tableAt_newPml4 hk hfree (isPath_tablesFor hp) hf with ⟨rfl, -⟩ | ⟨hkp, -⟩
    · obtain ⟨v, -, hv⟩ := mem_biUnion.mp hp
      simp [tablePaths, pathOf] at hv
    · exact tablesFor_path huser hp hkp
  refine ⟨hown, List.forall_mem_nil _, fun f hf => ?_, List.forall_mem_nil _, fun v hv _ => ?_, ?_, ?_, ?_⟩
  · have hne : f ≠ c := fun he => hf.1 (he ▸ hfree)
    exact update_of_ne hne _ _
  · by_contra hsome
    obtain ⟨e, he⟩ := ne_none_iff_exists'.mp hsome
    obtain ⟨l, hl, -⟩ := entryAt_some.mp he
    exact hown.cover v (lowPage_index hv.2) l hl
  · rfl
  · exact empty_subset _
  · rw [hmiss, List.countP_nil, add_zero]

end Start

section Frames

variable {P : Type} {s : Space P} {l : List (ℕ × Area)}

def mappedPages (s : Space P) : Finset ℕ :=
  (range userSpaceEnd).filter fun v => v % pageSize = 0 ∧
    mapped s.mm.machine.mem s.as.pt v = true ∧ vmmFindVma v s ≠ some 0

def framesToClone (s : Space P) : ℕ :=
  1 + (mappedPages s).card + ((mappedPages s).biUnion tablePaths).card

def framesToLast (s : Space P) : ℕ :=
  1 + (mappedPages s).card + (((mappedPages s).erase ((mappedPages s).sup id)).biUnion tablePaths).card

lemma mem_areaPages_iff (h : Listed s l) :
    v ∈ areaPages l ↔ UserPage v ∧ vmmFindVma v s ≠ some 0 := by
  obtain ⟨r, hr, hcase⟩ := vmmFindVma_spec h v
  rw [mem_areaPages h.ok, hr]
  obtain ⟨last, hseg⟩ := h.seg
  constructor
  · rintro ⟨hal, x, hx, hhas⟩
    refine ⟨⟨hal, hhas.2.trans_le (h.ok x hx).stop_le⟩, ?_⟩
    rintro ⟨⟩
    rcases hcase with ⟨a, ha, -⟩ | ⟨-, hno⟩
    · obtain ⟨h0, -⟩ := hseg.mem_some ha
      exact h0 rfl
    · exact hno x hx hhas
  rintro ⟨hv, hne⟩
  refine ⟨hv.1, ?_⟩
  rcases hcase with ⟨a, ha, hhas⟩ | ⟨rfl, -⟩
  · exact ⟨_, ha, hhas⟩
  · exact absurd rfl hne

lemma mappedPages_eq (h : Listed s l) :
    mappedPages s = ((areaPages l).filter (mapped s.mm.machine.mem s.as.pt)).toFinset := by
  ext v
  rw [mappedPages, mem_filter, mem_range, List.mem_toFinset, List.mem_filter, mem_areaPages_iff h, UserPage]
  tauto

lemma card_mappedPages (h : Listed s l) :
    (mappedPages s).card = (areaPages l).countP (mapped s.mm.machine.mem s.as.pt) := by
  have hnodup : (areaPages l).Nodup := (areaPages_sorted h.ok h.ordered).imp fun hlt => hlt.ne
  rw [mappedPages_eq h, List.toFinset_card_of_nodup (hnodup.filter _), List.countP_eq_length_filter]

lemma framesToClone_eq (h : Listed s l) : framesToClone s =
    1 + (areaPages l).countP (mapped s.mm.machine.mem s.as.pt) +
      (tablesFor s.mm.machine.mem s.as.pt (areaPages l)).card := by
  rw [framesToClone, card_mappedPages h, mappedPages_eq h, tablesFor]

lemma framesToLast_eq (h : Listed s l) {d r : List ℕ} {x : ℕ} (hl : areaPages l = d ++ x :: r)
    (hx : mapped s.mm.machine.mem s.as.pt x = true)
    (hr : ∀ v ∈ r, mapped s.mm.machine.mem s.as.pt v = false) :
    framesToClone s = 1 + (d.countP (mapped s.mm.machine.mem s.as.pt) + 1) +
        (tablesFor s.mm.machine.mem s.as.pt (areaPages l)).card ∧
      framesToLast s = 1 + (d.countP (mapped s.mm.machine.mem s.as.pt) + 1) +
        (tablesFor s.mm.machine.mem s.as.pt d).card := by
  have hfilter : (areaPages l).filter (mapped s.mm.machine.mem s.as.pt) =
      d.filter (mapped s.mm.machine.mem s.as.pt) ++ [x] := by
    rw [hl, List.filter_append, List.filter_cons_of_pos hx]
    congr 2
    exact List.filter_eq_nil_iff.mpr fun v hv => by simp [hr v hv]
  have hcount : (areaPages l).countP (mapped s.mm.machine.mem s.as.pt) =
      d.countP (mapped s.mm.machine.mem s.as.pt) + 1 := by
    rw [List.countP_eq_length_filter, hfilter, List.length_append, List.countP_eq_length_filter]
    rfl
  refine ⟨by rw [framesToClone_eq h, hcount], ?_⟩
  -- the pages come in increasing order
  have hlt : ∀ v ∈ d, v < x := by
    have hsort := areaPages_sorted h.ok h.ordered
    rw [hl] at hsort
    exact fun v hv => (List.pairwise_append.mp hsort).2.2 v hv x List.mem_cons_self
  have hsup : (mappedPages s).sup id = x := by
    rw [mappedPages_eq h, hfilter]
    refine le_antisymm (Finset.sup_le fun v hv => ?_) (le_sup (f := id) (by simp))
    simp only [List.mem_toFinset, List.mem_append, List.mem_filter, List.mem_singleton] at hv
    rcases hv with hv | rfl
    · exact (hlt v hv.1).le
    · exact le_refl _
  have herase : (mappedPages s).erase x = (d.filter (mapped s.mm.machine.mem s.as.pt)).toFinset := by
    rw [mappedPages_eq h, hfilter, List.toFinset_append]
    ext v
    simp only [mem_erase, mem_union, List.mem_toFinset, List.mem_singleton]
    constructor
    · rintro ⟨hne, hv | hv⟩
      · exact hv
      · exact absurd hv hne
    intro hv
    exact ⟨(hlt v (List.mem_filter.mp hv).1).ne, .inl hv⟩
  rw [framesToLast, hsup, herase, card_mappedPages h, hcount, tablesFor]

end Frames

section Clone

lemma framesToLast_le (s : Space P) : framesToLast s ≤ framesToClone s :=
  Nat.add_le_add_left (card_le_card (biUnion_subset_biUnion_of_subset_left _ (erase_subset ..))) _

variable {P : Type} [CountedPool P] {k : ℕ} {K : ℕ → Prop} {L : Set Loc} {s : Space P}

def Kept (root : ℕ) (mem mem' : PhysMem) (v : ℕ) : Prop :=
  entryAt mem' root v = entryAt mem root v ∧ ∀ e, entryAt mem root v = some e → mem' (pteTable e) = mem (pteTable e)

/-- The clone goes well, or is refused: either there are frames for everything and every mapped user
page lies in an area, or the frames run out before the tables of the last page. -/
def CloneSafe (s : Space P) : Prop :=
  count s.mm.machine.pool < framesToLast s ∨ (framesToClone s ≤ count s.mm.machine.pool ∧
      ∀ v, UserPage v → mapped s.mm.machine.mem s.as.pt v = true → vmmFindVma v s ≠ some 0)

lemma CloneState.copied_iff {c : ℕ} {m : Machine P} (hl : Listed s l) (hn : n0 + 1 = count s.mm.machine.pool)
    (h : CloneState s.as.pt c K (tablesFor s.mm.machine.mem s.as.pt (areaPages l))
      s.mm.machine.mem n0 (areaPages l) m) :
    CloneSafe s ↔ ∀ v, UserPage v → Copied s.as.pt c s.mm.machine.mem m.mem v := by
  have hall := framesToClone_eq hl
  rcases h with ⟨L, h⟩ | ⟨-, d, x, r, heq, ⟨hx, hnone⟩, hr, hlow, hup⟩
  · have hle := framesToLast_le s
    have hacc := h.account
    rw [h.tables, card_empty] at hacc
    constructor
    · rintro (hlt | ⟨-, hin⟩) v hv
      · omega
      by_cases hmem : v ∈ areaPages l
      · exact h.copied v hmem
      have hno : mapped s.mm.machine.mem s.as.pt v = false := by
        by_contra hm
        exact hmem ((mem_areaPages_iff hl).mpr ⟨hv, hin v hv (by simpa using hm)⟩)
      exact (Copied.of_absent hno).mpr (h.empty v hv hmem)
    · refine fun hcopy => .inr ⟨by omega, fun v hv hm hout => ?_⟩
      have hmem : v ∉ areaPages l := fun hc => ((mem_areaPages_iff hl).mp hc).2 hout
      exact (hcopy v hv).not_absent hm (h.empty v hv hmem)
  obtain ⟨hall', hlast⟩ := framesToLast_eq hl heq hx hr
  refine iff_of_false ?_ fun hcopy => (hcopy x ?_).not_absent hx hnone
  · rintro (hlt | ⟨hge, -⟩) <;> omega
  · exact ((mem_areaPages_iff hl).mp (by rw [heq]; simp)).1

lemma vmmCloneAddressSpace_spec (h : SpaceInv K L s) (hK : K k) (hK0 : K 0)
    (hrow : SharesKernel k s.as.pt s.mm.machine.mem) :
    ∃ r mm', vmmCloneAddressSpace k s.as s.mm = some (r, mm') ∧ ∀ child, r = some child → (CloneSafe s ↔
      ∀ v, UserPage v → Kept s.as.pt s.mm.machine.mem mm'.machine.mem v ∧
        Copied s.as.pt child.pt s.mm.machine.mem mm'.machine.mem v) := by
  obtain ⟨l, hl⟩ := h.areas
  obtain ⟨last, hseg⟩ := hl.seg
  have hk := kernelTable_later h.owns hrow hK hK0
  have hsrc := h.owns.frozen hrow fun v hv => .inl hv
  have huser : ∀ v ∈ areaPages l, UserPage v := fun v hv => ((mem_areaPages_iff hl).mp hv).1
  unfold vmmCloneAddressSpace
  have hlist : ∀ as, (vmmCreateAddressSpace k s.mm).1 = some as →
      Listed (⟨as, (vmmCreateAddressSpace k s.mm).2⟩ : Space P) [] :=
    fun _ => vmmCreateAddressSpace_listed
  have hsome := fun as => @vmmCreateAddressSpace_some k as P _ s.mm hk.self
  generalize vmmCreateAddressSpace k s.mm = res at hlist hsome ⊢
  obtain ⟨_ | newAs, mm1⟩ := res
  · exact ⟨none, mm1, rfl, fun child hc => by cases hc⟩
  obtain ⟨c, rfl, hphys, h0, hfree, hm, hvmas⟩ := hsome newAs rfl
  dsimp only at hm hvmas ⊢
  have hphys0 : (allocPage s.mm.machine.pool).1 ≠ 0 := by omega
  have hroot : ¬ Free (allocPage s.mm.machine.pool).2 c := by
    obtain ⟨c', hc', -, -, ht⟩ := allocPage_fresh hphys0
    rwa [show c = c' by omega]
  have hstart := cloneInv_start s.as.pt hk hfree (fun f => allocPage_mono) hroot huser
  rw [← hm] at hstart
  obtain ⟨b, t, ht, ⟨lc, hlc⟩, hstate⟩ := vmmCloneLoop_spec (s := ⟨freshAddressSpace c, mm1⟩)
    (n := s.as.vmaCount + 1) hsrc ⟨hk.zero, hk.zero_table⟩ (oneUpper_tablesFor huser)
    (by rwa [show (⟨freshAddressSpace c, mm1⟩ : Space P).mm.vmas = s.mm.vmas from hvmas])
    hl.ok (by rw [hl.count]; exact lt_add_one _) (hlist _ rfl) (fun y _ hy => by cases hy)
    (areaPages_sorted hl.ok hl.ordered) (fun v hv hmv => tablePaths_subset hv hmv)
  rw [ht]
  cases b with
  | false =>
    obtain ⟨last', hseg'⟩ := hlc.seg
    obtain ⟨mm', hmm', -⟩ := vmmDestroyLoop_spec hseg' hlc.nodup (n := t.as.vmaCount + 1)
      (by rw [hlc.count]; exact lt_add_one _)
    simp only [bind_eq_bind, bind_some, vmmDestroyAddressSpace, hmm']
    exact ⟨none, _, rfl, fun child hc => by cases hc⟩
  | true =>
    obtain ⟨hpt, hrun⟩ := hstate rfl
    have hend := hrun [] (fun _ _ hv => by cases hv) (.inl ⟨∅, hstart⟩)
    rw [List.nil_append] at hend
    refine ⟨_, t.mm, rfl, ?_⟩
    rintro child ⟨⟩
    rw [hend.copied_iff hl (allocPage_count hphys0)]
    refine forall₂_congr fun v hv => Iff.trans ?_ (and_iff_right ?_).symm
    · show _ ↔ Copied s.as.pt t.as.pt _ _ v
      rw [hpt]
    · exact ⟨hsrc.entryAt (fun f hf => hend.pinned hf) hv, fun e he => hend.pinned (hsrc.pages v e hv he).1⟩

end Clone

/-- **A clone duplicates the parent's memory.** Create an address space, perform any operations on it
and clone it: a child maps copies of the parent's user pages and no other user page, and the parent's
pages are as before, exactly if `CloneSafe` held. -/
theorem clone_copies (k : ℕ) (mm : Mm PmmPool) (hk : KernelTable k mm.machine) (as : AddressSpace)
    (hnew : (vmmCreateAddressSpace k mm).1 = some as) (ops : List VmOp) :
    ∃ s r mm', vmRun ops ⟨as, (vmmCreateAddressSpace k mm).2⟩ = some s ∧
      vmmCloneAddressSpace k s.as s.mm = some (r, mm') ∧
      ∀ child, r = some child → (CloneSafe s ↔ ∀ v, UserPage v → Kept s.as.pt s.mm.machine.mem mm'.machine.mem v ∧
        Copied s.as.pt child.pt s.mm.machine.mem mm'.machine.mem v) := by
  have hinv := vmmCreateAddressSpace_owned (K := fun f => f = 0 ∨ f = k) hk ?_ hnew
  · obtain ⟨r, rfl, -, -, hfree, hm, -⟩ := vmmCreateAddressSpace_some hk.self hnew
    have hne : k ≠ r := fun he => hk.self (he ▸ hfree)
    have hrow : SharesKernel k r (vmmCreateAddressSpace k mm).2.machine.mem := by
      rw [hm]
      exact newPml4_sharesKernel hne _
    obtain ⟨s, L, hs, hreach, hinv'⟩ := vmRun_owned hinv ops
    obtain ⟨r, mm', hclone, hspec⟩ := vmmCloneAddressSpace_spec hinv' (.inr rfl) (.inl rfl)
      (hreach.sharesKernel hinv (.inr rfl) hrow)
    exact ⟨s, r, mm', hs, hclone, hspec⟩
  rintro f (rfl | rfl)
  · exact ⟨hk.zero, hk.zero_table⟩
  · exact ⟨hk.self, hk.self_table⟩

theorem clone_loses_heap : (vmmCreateAddressSpace 1 smallMm).1 = some (freshAddressSpace 2) ∧
    (((vmRun [.brk (userHeapBase + 0x1000)]
      ⟨freshAddressSpace 2, (vmmCreateAddressSpace 1 smallMm).2⟩).bind fun s =>
        (vmmCloneAddressSpace 1 s.as s.mm).bind fun (r, mm) => r.map fun child =>
          (mapped s.mm.machine.mem s.as.pt userHeapBase,
            mapped mm.machine.mem child.pt userHeapBase)) = some (true, false)) := by
  decide +kernel

def widePool : PmmPool :=
  ⟨pmmMarkRegionFree 0x2000 0xe000 (pmmInitBitmap 16 pmmStatic),
    (Pmm.exec_inv (Pmm.pmmInitBitmap_inv 16 none 0) (.markRegionFree 0x2000 0xe000)).1⟩

def wideMm : Mm PmmPool :=
  { smallMm with machine := { smallMachine with pool := widePool }, kallocs := [64, 128, 192, 256, 320, 384] }

lemma not_free_of_bit {pool : PmmPool} {f : ℕ} (h : bitmapTest pool.1.bitmap f = true) : ¬ Free pool f := by
  rintro ⟨z, hz⟩
  have hbit := (Pmm.mem_freeFrames.mp hz).2
  rw [h] at hbit
  cases hbit

lemma wideMm_kernelTable : KernelTable 1 wideMm.machine :=
  { smallMachine_kernelTable with
    used := fun p f hp hkp ht => absurd ht (by
      obtain ⟨i, hi, -⟩ := hkp
      intro ht
      rw [(tableAt_smallMachine hp ht).1] at hi
      cases hi)
    self := not_free_of_bit (by decide +kernel)
    zero := not_free_of_bit (by decide +kernel) }

/-- A parent with one mapped page. -/
def parentOps : List VmOp := [.mmap 0 0x1000 protWrite mapAnonymous 0 0, .fault 0x10000000 2]

theorem clone_copies_small : ∃ s child mm',
    vmRun parentOps ⟨freshAddressSpace 2, (vmmCreateAddressSpace 1 wideMm).2⟩ = some s ∧
    vmmCloneAddressSpace 1 s.as s.mm = some (some child, mm') ∧
    mapped s.mm.machine.mem s.as.pt 0x10000000 = true ∧
    ∀ v, UserPage v → Kept s.as.pt s.mm.machine.mem mm'.machine.mem v ∧
      Copied s.as.pt child.pt s.mm.machine.mem mm'.machine.mem v := by
  have hnew : (vmmCreateAddressSpace 1 wideMm).1 = some (freshAddressSpace 2) := by decide +kernel
  obtain ⟨s, r, mm', hs, hr, hcopy⟩ := clone_copies 1 wideMm wideMm_kernelTable _ hnew parentOps
  have hrun : (vmRun parentOps ⟨freshAddressSpace 2, (vmmCreateAddressSpace 1 wideMm).2⟩).map
      (fun s : Space PmmPool => (mapped s.mm.machine.mem s.as.pt 0x10000000, s.mm.machine.pool.1.freePages,
        s.as.vmaCount, (s.mm.vmas s.as.vmaList).elim 0 (·.val.start), (s.mm.vmas s.as.vmaList).elim 0 (·.val.stop),
        (vmmCloneAddressSpace 1 s.as s.mm).elim false (·.1.isSome))) =
      some (true, 9, 1, 0x10000000, 0x10001000, true) := by decide +kernel
  have hheap : HeapRun parentOps (⟨freshAddressSpace 2, (vmmCreateAddressSpace 1 wideMm).2⟩ : Space PmmPool) :=
    ⟨fun h => absurd h (by decide), fun _ _ => ⟨trivial, fun _ _ => trivial⟩⟩
  obtain ⟨t, l, ht, htidy⟩ := (vmmCreateAddressSpace_tidy wideMm_kernelTable hnew).run hheap
  obtain rfl := some.inj (hs.symm.trans ht)
  rw [hs, map_some, hr] at hrun
  simp only [some.injEq, Prod.mk.injEq] at hrun
  obtain ⟨hm, hfree, hcount, hstart, hstop, hchild⟩ := hrun
  obtain ⟨child, rfl⟩ := isSome_iff_exists.mp hchild
  -- the one area has one page
  obtain ⟨x, rfl⟩ := List.length_eq_one_iff.mp (htidy.listed.count.symm.trans hcount)
  obtain ⟨last, hseg⟩ := htidy.listed.seg
  obtain ⟨-, nx, pv, hcell⟩ := hseg.mem_some (List.mem_singleton_self x)
  rw [hseg.eq_headPtr, show headPtr [x] = x.1 from rfl, hcell] at hstart hstop
  have hpages : areaPages [x] = [0x10000000] := by
    rw [areaPages, List.flatMap_singleton, show x.2.start = 0x10000000 from hstart, show x.2.stop = 0x10001000 from hstop]
    decide
  have hsub : mappedPages s ⊆ {0x10000000} := by
    rw [mappedPages_eq htidy.listed, hpages]
    exact fun v hv => by simpa using (List.mem_filter.mp (List.mem_toFinset.mp hv)).1
  have hsafe : CloneSafe s := by
    refine .inr ⟨?_, fun v hv hmv => ?_⟩
    · have h1 := card_le_card hsub
      have h2 := card_le_card (biUnion_subset_biUnion_of_subset_left tablePaths hsub)
      rw [singleton_biUnion, show (tablePaths 0x10000000).card = 3 by decide] at h2
      rw [framesToClone, show count s.mm.machine.pool = 9 from hfree]
      rw [card_singleton] at h1
      omega
    · have hne : entryAt s.mm.machine.mem s.as.pt v ≠ none := isSome_iff_ne_none.mp hmv
      obtain ⟨p, hp, h0⟩ := (htidy.listed.covers_iff v).mpr (htidy.clean v hv.1 (.inl ⟨hv.2, hne⟩))
      rw [hp]
      exact fun he => h0 (some.inj he)
  exact ⟨s, child, mm', hs, hr, hm, (hcopy child rfl).mp hsafe⟩

end Obelisk
