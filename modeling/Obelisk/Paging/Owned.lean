import Obelisk.Paging.Entries

/-!
# Ownership of frames

`Owns root K D L m`: the page table at `root` owns the frames that the entries `L` of its last-level
tables map.
-/

namespace Obelisk

open KLib Relation Function FramePool PhysMem Option List

variable {p : List ℕ} {a f i virt : ℕ} {l : Loc} {mem' : PhysMem} {w : BitVec 64} {L' : Set Loc}
variable {g k root : ℕ} {mem : PhysMem} {L : Set Loc} {A B D K : ℕ → Prop}

def KernelPath (p : List ℕ) : Prop := ∃ i, p.head? = some i ∧ 256 ≤ i

def HalfSep (p q : List ℕ) : Prop := p = q ∨ KernelPath p ∧ KernelPath q

def HugePresent (root : ℕ) (mem : PhysMem) : Prop := ∀ p f i, IsPath (p ++ [i]) → p ≠ [] →
  tableAt mem root p = some f → pteIsHuge (mem f i) = true → pteIsPresent (mem f i) = true

def NoTable (root : ℕ) (mem : PhysMem) (g : ℕ) : Prop := ∀ p, IsPath p → tableAt mem root p ≠ some g

variable {P : Type} [FramePool P]

/-- The entry `l` of a last-level table maps a frame that is in use and is nothing else. -/
structure OwnsFrame (root : ℕ) (K : ℕ → Prop) (m : Machine P) (l : Loc) : Prop where
  last : LastLevel root m.mem l
  present : pteIsPresent (m.mem.read l) = true
  ne : pteTable (m.mem.read l) ≠ 0
  used : ¬ Free m.pool (pteTable (m.mem.read l))
  table : NoTable root m.mem (pteTable (m.mem.read l))
  pinned : ¬ K (pteTable (m.mem.read l))

/-- The page table owns the frames of the entries `L`. -/
structure Owns (root : ℕ) (K D : ℕ → Prop) (L : Set Loc) (m : Machine P) : Prop where
  used : TablesUsed root m
  level : LevelSep root m.mem
  half : Sep HalfSep root m.mem
  huge : HugePresent root m.mem
  frame : ∀ {l}, l ∈ L → OwnsFrame root K m l
  frame_inj : ∀ l ∈ L, ∀ l' ∈ L, pteTable (m.mem.read l) = pteTable (m.mem.read l') → l = l'
  cover : ∀ v, D v → ∀ l, PresentAt m.mem root v l → l ∈ L
  pinned_used : ∀ k, K k → ¬ Free m.pool k
  pinned_table : ∀ k, K k → NoTable root m.mem k

/-- A frame that has been taken and is not in use yet, or not any more. -/
structure Loose (root : ℕ) (K : ℕ → Prop) (L : Set Loc) (m : Machine P) (g : ℕ) : Prop where
  used : ¬ Free m.pool g
  table : NoTable root m.mem g
  frame : ∀ l ∈ L, pteTable (m.mem.read l) ≠ g
  pinned : ¬ K g

/-- The steps that keep ownership. -/
inductive OwnStep (root : ℕ) (K A : ℕ → Prop) :
    Machine P × Set Loc → Machine P × Set Loc → Prop
  /-- Frames disappear from the allocator. -/
  | pool {m m' : Machine P} {L : Set Loc} : m'.mem = m.mem →
      (∀ f, Free m'.pool f → Free m.pool f) → OwnStep root K A (m, L) (m', L)
  /-- A table is created. -/
  | table {m m' : Machine P} {L : Set Loc} {p : List ℕ} {f i g : ℕ} :
      NewTable root p f i g m m' → OwnStep root K A (m, L) (m', L)
  /-- Data is written to a frame. -/
  | fill {m m' : Machine P} {L : Set Loc} {g : ℕ} (data : ℕ → BitVec 64) : NoTable root m.mem g →
      ¬ K g → m'.pool = m.pool → m'.mem = update m.mem g data →
      OwnStep root K A (m, L) (m', L)
  /-- A loose frame is mapped at an address of `A`. -/
  | link {m m' : Machine P} {L : Set Loc} {a : ℕ} {l : Loc} {w : BitVec 64} : A a →
      walkLoc m.mem root a = some l → pteIsPresent (m.mem.read l) = false →
      pteIsPresent w = true → pteTable w ≠ 0 → Loose root K L m (pteTable w) → m'.pool = m.pool →
      m'.mem = m.mem.write l w → OwnStep root K A (m, L) (m', insert l L)
  /-- An owned frame is unmapped. -/
  | unlink {m m' : Machine P} {L : Set Loc} {a : ℕ} {l : Loc} : A a →
      walkLoc m.mem root a = some l → l ∈ L → m'.pool = m.pool → m'.mem = m.mem.write l 0#64 →
      OwnStep root K A (m, L) (m', L \ {l})
  /-- An owned frame gets other flags. -/
  | protect {m m' : Machine P} {L : Set Loc} {a : ℕ} {l : Loc} {w : BitVec 64} : A a →
      walkLoc m.mem root a = some l → l ∈ L → pteIsPresent w = true →
      pteTable w = pteTable (m.mem.read l) → m'.pool = m.pool → m'.mem = m.mem.write l w →
      OwnStep root K A (m, L) (m', L)
  /-- A loose frame is given back. -/
  | free {m m' : Machine P} {L : Set Loc} {g : ℕ} : Loose root K L m g → m'.mem = m.mem →
      (∀ f, Free m'.pool f → Free m.pool f ∨ f = g) →
      OwnStep root K A (m, L) (m', L)

/-! ## Tables under the elementary changes -/

section Fill

variable {root g : ℕ} {mem : PhysMem} (hg : NoTable root mem g) (data : ℕ → BitVec 64)
include hg

lemma fill_table (i : ℕ) (hp : IsPath p) (hf : tableAt mem root p = some f) :
    update mem g data f i = mem f i := by
  rw [update_of_ne]
  rintro rfl
  exact hg p hp hf

lemma tableAt_fill (hp : IsPath p) : tableAt (update mem g data) root p = tableAt mem root p :=
  tableAt_congr hp fun q f i hq hf => by rw [fill_table hg data i hq.left hf]

lemma walkLoc_fill (virt : ℕ) : walkLoc (update mem g data) root virt = walkLoc mem root virt :=
  walkLoc_congr fun _ _ i hp hf => fill_table hg data i (isPath_initial hp).left hf

lemma read_fill (hp : IsPath p) (hl : tableAt mem root p = some l.1) :
    read (update mem g data) l = mem.read l :=
  fill_table hg data l.2 hp hl

lemma entryAt_fill (virt : ℕ) :
    entryAt (update mem g data) root virt = entryAt mem root virt := by
  rw [entryAt, walkLoc_fill hg, entryAt]
  cases hl : walkLoc mem root virt with
  | none => rfl
  | some l =>
    obtain ⟨p, hp, ht⟩ := walkLoc_table hl
    rw [bind_some, bind_some, read_fill hg data hp ht]

end Fill

lemma LastLevel.table (h : LastLevel root mem l) :
    ∃ p, IsPath p ∧ tableAt mem root p = some l.1 := by
  obtain ⟨p, hp, -, ht⟩ := h
  exact ⟨p, hp, ht⟩

lemma Sep.congr {R : List ℕ → List ℕ → Prop}
    (h : Sep R root mem) (he : ∀ p, IsPath p → tableAt mem' root p = tableAt mem root p) :
    Sep R root mem' := by
  intro p q f hp hq h1 h2
  rw [he p hp] at h1
  rw [he q hq] at h2
  exact h p q f hp hq h1 h2

lemma LastLevel.congr (h : LastLevel root mem l)
    (he : ∀ p, IsPath p → tableAt mem' root p = tableAt mem root p) : LastLevel root mem' l := by
  obtain ⟨p, hp, h3, ht⟩ := h
  exact ⟨p, hp, h3, (he p hp).trans ht⟩

lemma NoTable.congr (h : NoTable root mem g)
    (he : ∀ p, IsPath p → tableAt mem' root p = tableAt mem root p) : NoTable root mem' g :=
  fun p hp ht => h p hp ((he p hp).symm.trans ht)

lemma HugePresent.congr (h : HugePresent root mem) (he : ∀ p, IsPath p → tableAt mem' root p = tableAt mem root p)
    (hm : ∀ p f i, IsPath (p ++ [i]) → tableAt mem root p = some f → mem' f i = mem f i) :
    HugePresent root mem' := by
  intro p f i hp h0 hf hh
  rw [he p hp.left] at hf
  rw [hm p f i hp hf] at hh ⊢
  exact h p f i hp h0 hf hh

lemma KernelPath.append (h : KernelPath p) (q : List ℕ) : KernelPath (p ++ q) := by
  obtain ⟨i, hi, h256⟩ := h
  refine ⟨i, ?_, h256⟩
  rw [List.head?_append, hi, some_or]

lemma halfSep_append (p q : List ℕ) (i : ℕ) (h : HalfSep p q) : HalfSep (p ++ [i]) (q ++ [i]) := by
  rcases h with rfl | ⟨hp, hq⟩
  · exact .inl rfl
  · exact .inr ⟨hp.append _, hq.append _⟩

lemma NewTable.noTable {h : ℕ} {m m' : Machine P}
    (hn : NewTable root p f i g m m') (hu : TablesUsed root m) (ht : NoTable root m.mem h)
    (hh : ¬ Free m.pool h) : NoTable root m'.mem h := by
  intro q hq hqt
  rcases hn.tableAt_cases hu hq hqt with hold | ⟨rfl, -⟩
  · exact ht q hq hold
  · exact hh hn.fresh

lemma NewTable.hugePresent {m m' : Machine P}
    (hn : NewTable root p f i g m m') (hu : TablesUsed root m) (h : HugePresent root m.mem) :
    HugePresent root m'.mem := by
  intro q t j hq h0 hqt hh
  rcases hn.tableAt_cases hu hq.left hqt with hold | ⟨rfl, -⟩
  · by_cases he : (t, j) = (f, i)
    · cases he
      exact (nextTable_some.mp (hn.next_self false)).1
    · rw [hn.mem_of_ne hu hq.left hold he] at hh ⊢
      exact h q t j hq h0 hold hh
  rw [hn.mem_new hu, pteIsHuge_zero] at hh
  cases hh

lemma lastLevel_of_absent (hh : HugePresent root mem)
    (hl : walkLoc mem root virt = some l) (hp : pteIsPresent (mem.read l) = false) :
    LastLevel root mem l := by
  rcases walkFrom_cases hl with ⟨p, hpre, hne, ht, hhl⟩ | ⟨ht, -⟩
  · have h0 : p ≠ [] := by rintro rfl; cases hne
    have := hh p l.1 l.2 (isPath_initial hpre) h0 ht hhl
    rw [show mem l.1 l.2 = mem.read l from rfl, hp] at this
    cases this
  · exact ⟨_, isPath_pathOf virt, rfl, ht⟩

section Keep

variable {root : ℕ} {K D : ℕ → Prop} {L : Set Loc} {m m' : Machine P}

lemma OwnsFrame.congr (h : OwnsFrame root K m l) (hlast : LastLevel root m'.mem l)
    (hread : m'.mem.read l = m.mem.read l) (hused : ¬ Free m'.pool (pteTable (m.mem.read l)))
    (htable : NoTable root m'.mem (pteTable (m.mem.read l))) : OwnsFrame root K m' l := by
  obtain ⟨-, hpres, hne, -, -, hpin⟩ := h
  rw [← hread] at hpres hne hused htable hpin
  exact ⟨hlast, hpres, hne, hused, htable, hpin⟩

lemma Owns.pool (h : Owns root K D L m) (hm : m'.mem = m.mem)
    (hp : ∀ f, Free m'.pool f → Free m.pool f ∨ Loose root K L m f) :
    Owns root K D L m' := by
  have keep : ∀ f, ¬ Free m.pool f → ¬ Loose root K L m f → ¬ Free m'.pool f :=
    fun f h1 h2 h₃ => (hp f h₃).elim h1 h2
  obtain ⟨pool', mem'⟩ := m'
  subst hm
  refine { h with used := ?_, frame := fun {l} hl => ?_, pinned_used := ?_ }
  · exact fun p f hpath hf => keep f (h.used p f hpath hf) fun hg => hg.table p hpath hf
  · exact { h.frame hl with used := keep _ (h.frame hl).used fun hg => hg.frame l hl rfl }
  · exact fun k hk => keep k (h.pinned_used k hk) fun hg => hg.pinned hk

lemma Owns.table (h : Owns root K D L m)
    (hn : NewTable root p f i g m m') : Owns root K D L m' := by
  have hread : ∀ l ∈ L, m'.mem.read l = m.mem.read l := fun l hl => by
    obtain ⟨q, hq, ht⟩ := (h.frame hl).last.table
    exact hn.read_of_present h.used hq ht (h.frame hl).present
  refine ⟨hn.tablesUsed h.used, hn.sep h.used (fun p q i e => by simp [e]) h.level,
    hn.sep h.used halfSep_append h.half, hn.hugePresent h.used h.huge, fun {l} hl => ?_, ?_, ?_, ?_, ?_⟩
  · have hf := h.frame hl
    obtain ⟨q, hq, h3, ht⟩ := hf.last
    exact hf.congr ⟨q, hq, h3, hn.tableAt_mono h.used hq ht⟩ (hread l hl)
      (fun hfree => hf.used (hn.pool_mono hfree)) (hn.noTable h.used hf.table hf.used)
  · intro l hl l' hl' he
    rw [hread l hl, hread l' hl'] at he
    exact h.frame_inj l hl l' hl' he
  · exact fun v hv l hl => h.cover v hv l (hn.presentAt_of h.used h.level hl)
  · exact fun k hk hf => h.pinned_used k hk (hn.pool_mono hf)
  · exact fun k hk => hn.noTable h.used (h.pinned_table k hk) (h.pinned_used k hk)

lemma Owns.fill (h : Owns root K D L m) {data : ℕ → BitVec 64} (hg : NoTable root m.mem g) (hp : m'.pool = m.pool)
    (hm : m'.mem = update m.mem g data) : Owns root K D L m' := by
  obtain ⟨pool', mem'⟩ := m'
  subst hp hm
  have htab : ∀ p, IsPath p → tableAt (update m.mem g data) root p =
      tableAt m.mem root p := fun p hpath => tableAt_fill hg data hpath
  have hread : ∀ l ∈ L, read (update m.mem g data) l = m.mem.read l :=
    fun l hl => by
      obtain ⟨p, hpath, ht⟩ := (h.frame hl).last.table
      exact read_fill hg data hpath ht
  refine ⟨?_, h.level.congr htab, h.half.congr htab, h.huge.congr htab ?_, fun {l} hl => ?_, ?_, ?_,
    h.pinned_used, fun k hk => (h.pinned_table k hk).congr htab⟩
  · exact fun p f hpath hf => h.used p f hpath (htab p hpath ▸ hf)
  · exact fun p f i hpath hf => fill_table hg data i hpath.left hf
  · have hf := h.frame hl
    exact hf.congr (hf.last.congr htab) (hread l hl) hf.used (hf.table.congr htab)
  · intro l hl l' hl' he
    rw [hread l hl, hread l' hl'] at he
    exact h.frame_inj l hl l' hl' he
  · rintro v hv l ⟨hl, hpres⟩
    rw [walkLoc_fill hg] at hl
    obtain ⟨p, hpath, ht⟩ := walkLoc_table hl
    rw [read_fill hg data hpath ht] at hpres
    exact h.cover v hv l ⟨hl, hpres⟩

lemma read_write_of_ne {l' : Loc} (hne : l' ≠ l) :
    (mem.write l w).read l' = mem.read l' := write_of_ne hne

lemma read_write_self : (mem.write l w).read l = w :=
  write_self

lemma Owns.write (h : Owns root K D L m) (hl : LastLevel root m.mem l) (hL : ∀ l', l' ≠ l → (l' ∈ L' ↔ l' ∈ L))
    (hp : l ∈ L' ↔ pteIsPresent w = true)
    (hw : pteIsPresent w = true → pteTable w ≠ 0 ∧ Loose root K (L \ {l}) m (pteTable w)) :
    Owns root K D L' { m with mem := m.mem.write l w } := by
  have htab : ∀ p, IsPath p → tableAt (m.mem.write l w) root p = tableAt m.mem root p :=
    fun p hpath => tableAt_write h.level hl w hpath
  -- an entry of `L'` is the written one or an untouched one of `L`
  have hcase : ∀ l' ∈ L', (l' = l ∧ pteIsPresent w = true ∧ (m.mem.write l w).read l' = w) ∨
      (l' ∈ L \ {l} ∧ (m.mem.write l w).read l' = m.mem.read l') := by
    intro l' hl'
    by_cases he : l' = l
    · subst he
      exact .inl ⟨rfl, hp.mp hl', read_write_self⟩
    · exact .inr ⟨⟨(hL l' he).mp hl', he⟩, read_write_of_ne he⟩
  refine ⟨h.used.write h.level hl w, h.level.congr htab, h.half.congr htab, ?_, ?_, ?_, ?_,
    h.pinned_used, fun k hk => (h.pinned_table k hk).congr htab⟩
  · refine h.huge.congr htab fun p f i hpath hf => ?_
    have hlen := hpath.1
    rw [length_append, length_singleton] at hlen
    exact write_middle h.level hl w i hpath.left (by omega) hf
  all_goals intro l' hl'
  · rcases hcase l' hl' with ⟨rfl, hpres, hr⟩ | ⟨hold, hr⟩
    · have hloose := (hw hpres).2
      refine ⟨hl.congr htab, ?_, ?_, ?_, ?_, ?_⟩ <;> rw [hr]
      exacts [hpres, (hw hpres).1, hloose.used, hloose.table.congr htab, hloose.pinned]
    · have hf := h.frame hold.1
      exact hf.congr (hf.last.congr htab) hr hf.used (hf.table.congr htab)
  · intro l'' hl'' he
    rcases hcase l' hl' with ⟨e, hpres, hr⟩ | ⟨hold, hr⟩ <;>
      rcases hcase l'' hl'' with ⟨e', hpres', hr'⟩ | ⟨hold', hr'⟩ <;> rw [hr, hr'] at he
    · rw [e, e']
    · exact absurd he.symm ((hw hpres).2.frame l'' hold')
    · exact absurd he ((hw hpres').2.frame l' hold)
    · exact h.frame_inj l' hold.1 l'' hold'.1 he
  · rintro l'' ⟨hwalk, hpres⟩
    rw [walkLoc_write h.level hl] at hwalk
    by_cases he : l'' = l
    · subst he
      rw [read_write_self] at hpres
      exact hp.mpr hpres
    rw [read_write_of_ne he] at hpres
    exact (hL l'' he).mpr (h.cover l' hl' l'' ⟨hwalk, hpres⟩)

lemma Loose.mono (h : Loose root K L m g) (hL : L' ⊆ L) : Loose root K L' m g :=
  ⟨h.used, h.table, fun l hl => h.frame l (hL hl), h.pinned⟩

lemma OwnStep.owns {x y : Machine P × Set Loc} (hstep : OwnStep root K A x y)
    (h : Owns root K D x.2 x.1) : Owns root K D y.2 y.1 := by
  cases hstep with
  | pool hm hp => exact h.pool hm fun f hf => .inl (hp f hf)
  | table hn => exact h.table hn
  | fill data hg _ hp hm => exact h.fill hg hp hm
  | @link m m' L a l w _ hl habs hpres h0 hloose hp hm =>
    obtain ⟨pool', mem'⟩ := m'
    subst hp hm
    refine h.write (lastLevel_of_absent h.huge hl habs) (fun l' he => ?_) ?_ fun _ => ?_
    · rw [Set.mem_insert_iff]
      exact ⟨fun hor => hor.resolve_left he, .inr⟩
    · exact ⟨fun _ => hpres, fun _ => Set.mem_insert l L⟩
    · exact ⟨h0, hloose.mono Set.sdiff_subset⟩
  | @unlink m m' L a l _ hl hmem hp hm =>
    obtain ⟨pool', mem'⟩ := m'
    subst hp hm
    refine h.write (h.frame hmem).last (fun l' he => ⟨fun hd => hd.1, fun hd => ⟨hd, he⟩⟩) ?_ ?_
    · rw [pteIsPresent_zero]
      exact ⟨fun hd => absurd rfl hd.2, fun hd => by cases hd⟩
    intro hd
    rw [pteIsPresent_zero] at hd
    cases hd
  | @protect m m' L a l w _ hl hmem hpres hw hp hm =>
    obtain ⟨pool', mem'⟩ := m'
    subst hp hm
    refine h.write (h.frame hmem).last (fun l' _ => .rfl) ⟨fun _ => hpres, fun _ => hmem⟩ fun _ => ?_
    rw [hw]
    have hf := h.frame hmem
    refine ⟨hf.ne, hf.used, hf.table, ?_, hf.pinned⟩
    rintro l' ⟨hl', hne⟩ heq
    exact hne (h.frame_inj l' hl' l hmem heq)
  | free hg hm hp =>
    refine h.pool hm fun f hf => (hp f hf).imp_right ?_
    rintro rfl
    exact hg

/-- What a step does to memory: nothing, a new table, data, or an entry of the last level. -/
theorem OwnStep.mem_induct {x y : Machine P × Set Loc} {Q : PhysMem → Prop}
    (hstep : OwnStep root K A x y) (h : Owns root K D x.2 x.1) (hsame : Q x.1.mem)
    (htable : ∀ {p f i g}, NewTable root p f i g x.1 y.1 → Q y.1.mem)
    (hfill : ∀ {g} data, NoTable root x.1.mem g → ¬ K g → Q (update x.1.mem g data))
    (hwrite : ∀ {a l w}, A a → walkLoc x.1.mem root a = some l → LastLevel root x.1.mem l →
      Q (x.1.mem.write l w)) : Q y.1.mem := by
  cases hstep with
  | pool hm _ => exact hm ▸ hsame
  | table hn => exact htable hn
  | fill data hg hK _ hm => exact hm ▸ hfill data hg hK
  | link ha hl habs _ _ _ _ hm => exact hm ▸ hwrite ha hl (lastLevel_of_absent h.huge hl habs)
  | unlink ha hl hmem _ hm => exact hm ▸ hwrite ha hl (h.frame hmem).last
  | protect ha hl hmem _ _ _ hm => exact hm ▸ hwrite ha hl (h.frame hmem).last
  | free _ hm _ => exact hm ▸ hsame

lemma OwnStep.mem_pinned {x y : Machine P × Set Loc}
    (hstep : OwnStep root K A x y) (h : Owns root K D x.2 x.1) (hk : K k) :
    y.1.mem k = x.1.mem k := by
  refine hstep.mem_induct (Q := fun mem => mem k = x.1.mem k) h rfl ?_ ?_ ?_
  · intro p f i g hn
    obtain ⟨e, -, -, -, hm⟩ := hn.entry
    funext j
    rw [hm, write_of_ne, zeroFrame_of_ne]
    · rintro rfl
      exact h.pinned_used k hk hn.fresh
    intro he
    cases he
    exact h.pinned_table k hk p hn.isPath.left hn.table
  · intro g data _ hg
    refine update_of_ne ?_ _ _
    rintro rfl
    exact hg hk
  rintro a l w - - ⟨p, hp, -, ht⟩
  funext i
  refine write_of_ne fun he => h.pinned_table k hk p hp ?_
  rw [ht, ← he]

/-! ## Runs of elementary changes -/

abbrev OwnSteps (root : ℕ) (K A : ℕ → Prop) : Machine P × Set Loc → Machine P × Set Loc → Prop :=
  ReflTransGen (OwnStep root K A)

lemma OwnStep.mono (hAB : ∀ a, A a → B a) {x y : Machine P × Set Loc}
    (hs : OwnStep root K A x y) : OwnStep root K B x y := by
  cases hs with
  | pool hm hp => exact .pool hm hp
  | table hn => exact .table hn
  | fill data hg hk hp hm => exact .fill data hg hk hp hm
  | link ha hl habs hpres h0 hg hp hm => exact .link (hAB _ ha) hl habs hpres h0 hg hp hm
  | unlink ha hl hmem hp hm => exact .unlink (hAB _ ha) hl hmem hp hm
  | protect ha hl hmem hpres hw hp hm => exact .protect (hAB _ ha) hl hmem hpres hw hp hm
  | free hg hm hp => exact .free hg hm hp

lemma OwnSteps.mono (hAB : ∀ a, A a → B a) {x y : Machine P × Set Loc}
    (hs : OwnSteps root K A x y) : OwnSteps root K B x y :=
  ReflTransGen.mono (fun _ _ h => OwnStep.mono hAB h) _ _ hs

lemma OwnSteps.owns {x y : Machine P × Set Loc} (hs : OwnSteps root K A x y)
    (h : Owns root K D x.2 x.1) : Owns root K D y.2 y.1 := by
  induction hs with
  | refl => exact h
  | tail _ hstep ih => exact hstep.owns ih

lemma OwnSteps.mem_pinned {x y : Machine P × Set Loc} (hs : OwnSteps root K A x y)
    (h : Owns root K D x.2 x.1) (hk : K k) : y.1.mem k = x.1.mem k := by
  induction hs with
  | refl => rfl
  | tail hsteps hstep ih => exact (hstep.mem_pinned (OwnSteps.owns hsteps h) hk).trans ih

lemma Loose.table_step (h : Owns root K D L m) (hg : Loose root K L m g)
    {t : ℕ} (hn : NewTable root p f i t m m') : Loose root K L m' g := by
  refine ⟨fun hf => hg.used (hn.pool_mono hf), hn.noTable h.used hg.table hg.used, ?_, hg.pinned⟩
  intro l hl
  obtain ⟨q, hq, ht⟩ := (h.frame hl).last.table
  rw [hn.read_of_present h.used hq ht (h.frame hl).present]
  exact hg.frame l hl

lemma Extends.ownSteps (hx : Extends root virt m m') : OwnSteps root K A (m, L) (m', L) := by
  induction hx with
  | refl => exact .refl
  | noFrame _ _ ih => exact ih.tail (.pool rfl fun f => allocPage_mono)
  | table _ _ hn ih => exact ih.tail (.table hn)

lemma Extends.loose (hx : Extends root virt m m') (h : Owns root K D L m)
    (hg : Loose root K L m g) : Loose root K L m' g := by
  induction hx with
  | refl => exact hg
  | noFrame _ _ ih => exact ⟨fun hf => ih.used (allocPage_mono hf), ih.table, ih.frame, ih.pinned⟩
  | table hx _ hn ih =>
    exact ih.table_step ((Extends.ownSteps (A := fun _ => False) hx).owns h) hn

lemma Extends.noTable (hx : Extends root virt m m') (h : Owns root K D L m)
    (hf : ¬ Free m.pool f) (ht : NoTable root m.mem f) : NoTable root m'.mem f := by
  induction hx with
  | refl => exact ht
  | noFrame _ _ ih => exact ih
  | @table m1 _ _ _ _ _ hx _ hn ih =>
    have hown : Owns root K D L m1 := (Extends.ownSteps (A := fun _ => False) hx).owns h
    exact hn.noTable hown.used ih fun hfree => hf (hx.pool_mono hfree)

lemma Extends.mem_other (hx : Extends root virt m m') (h : Owns root K D L m)
    (hf : ¬ Free m.pool f) (ht : NoTable root m.mem f) : m'.mem f = m.mem f := by
  induction hx with
  | refl => rfl
  | noFrame _ _ ih => exact ih
  | @table m1 m2 p t i g hx _ hn ih =>
    obtain ⟨e, -, -, -, hm⟩ := hn.entry
    rw [← ih]
    funext j
    rw [hm, write_of_ne, zeroFrame_of_ne]
    · rintro rfl
      exact hf (hx.pool_mono hn.fresh)
    intro he
    cases he
    exact hx.noTable h hf ht p hn.isPath.left hn.table

end Keep

lemma walkLoc_lastLevel (hs : LevelSep root mem) (hl : LastLevel root mem l) (hw : walkLoc mem root virt = some l) :
    tableAt mem root (pathOf virt) = some l.1 ∧ l.2 = ptIndex virt := by
  rcases walkFrom_cases hw with ⟨p, hpre, -, ht, -⟩ | h
  · obtain ⟨q, hq, h3, htq⟩ := hl
    have hlen := hs p q l.1 (isPath_initial hpre).left hq ht htq
    have := (isPath_initial hpre).1
    rw [length_append, length_singleton] at this
    omega
  · exact h

lemma walkLoc_halfSep {v : ℕ} (hs : LevelSep root mem)
    (hh : Sep HalfSep root mem) (hl : LastLevel root mem l) (hv : walkLoc mem root v = some l)
    (ha : walkLoc mem root a = some l) :
    (pathOf v = pathOf a ∧ ptIndex v = ptIndex a) ∨ (256 ≤ pml4Index v ∧ 256 ≤ pml4Index a) := by
  obtain ⟨tv, iv⟩ := walkLoc_lastLevel hs hl hv
  obtain ⟨ta, ia⟩ := walkLoc_lastLevel hs hl ha
  rcases hh _ _ _ (isPath_pathOf v) (isPath_pathOf a) tv ta with he | ⟨⟨i, hi, h1⟩, j, hj, h2⟩
  · exact .inl ⟨he, iv.symm.trans ia⟩
  cases hi
  cases hj
  exact .inr ⟨h1, h2⟩

section Kept

variable {root v : ℕ} {K D A : ℕ → Prop} {x y : Machine P × Set Loc}

lemma OwnStep.entryAt_eq (hstep : OwnStep root K A x y) (h : Owns root K D x.2 x.1)
    (hA : ∀ a l, A a → LastLevel root x.1.mem l → walkLoc x.1.mem root v = some l →
      walkLoc x.1.mem root a ≠ some l) : entryAt y.1.mem root v = entryAt x.1.mem root v := by
  refine hstep.mem_induct (Q := fun mem => entryAt mem root v = entryAt x.1.mem root v) h rfl
    (fun hn => hn.entryAt_eq h.used h.level v) (fun data hg _ => entryAt_fill hg data v) ?_
  intro a l w ha hl hlast
  rw [entryAt_write h.level hlast, if_neg]
  exact fun hv => hA a l ha hlast hv hl

/-- Changes in the lower half keep the entries of the upper half. -/
theorem OwnStep.entryAt_upper (hstep : OwnStep root K A x y) (h : Owns root K D x.2 x.1)
    (hA : ∀ a, A a → pml4Index a < 256) (hv : 256 ≤ pml4Index v) :
    entryAt y.1.mem root v = entryAt x.1.mem root v := by
  refine hstep.entryAt_eq h fun a l ha hlast hvl hl => ?_
  have := hA a ha
  rcases walkLoc_halfSep h.level h.half hlast hvl hl with ⟨hp, -⟩ | ⟨-, h2⟩
  · have : pml4Index v = pml4Index a := (List.cons.inj hp).1
    omega
  · omega

lemma OwnSteps.entryAt_upper (hs : OwnSteps root K A x y) (h : Owns root K D x.2 x.1)
    (hA : ∀ a, A a → pml4Index a < 256) (hv : 256 ≤ pml4Index v) :
    entryAt y.1.mem root v = entryAt x.1.mem root v := by
  induction hs with
  | refl => rfl
  | tail hsteps hstep ih =>
    exact (hstep.entryAt_upper (OwnSteps.owns hsteps h) hA hv).trans ih

lemma OwnStep.top_entry (hstep : OwnStep root K A x y) (h : Owns root K D x.2 x.1)
    (hp : pteIsPresent (x.1.mem root i) = true) : y.1.mem root i = x.1.mem root i :=
  have hroot : IsPath ([] : List ℕ) := isPath_nil
  hstep.mem_induct (Q := fun mem => mem root i = x.1.mem root i) h rfl
    (fun hn => hn.read_of_present (l := (root, i)) h.used hroot rfl hp)
    (fun data hg _ => fill_table hg data i hroot rfl)
    fun _ _ hl => write_middle h.level hl _ i hroot (by simp) rfl

lemma OwnSteps.top_entry (hs : OwnSteps root K A x y) (h : Owns root K D x.2 x.1)
    (hp : pteIsPresent (x.1.mem root i) = true) : y.1.mem root i = x.1.mem root i := by
  induction hs with
  | refl => rfl
  | tail hsteps hstep ih =>
    exact (hstep.top_entry (OwnSteps.owns hsteps h) (ih ▸ hp)).trans ih

lemma OwnStep.tableAt_mono (hstep : OwnStep root K A x y) (h : Owns root K D x.2 x.1)
    (hp : IsPath p) (ht : tableAt x.1.mem root p = some f) : tableAt y.1.mem root p = some f :=
  hstep.mem_induct (Q := fun mem => tableAt mem root p = some f) h ht
    (fun hn => hn.tableAt_mono h.used hp ht) (fun data hg _ => (tableAt_fill hg data hp).trans ht)
    fun _ _ hl => (tableAt_write h.level hl _ hp).trans ht

lemma OwnSteps.tableAt_mono (hs : OwnSteps root K A x y) (h : Owns root K D x.2 x.1)
    (hp : IsPath p) (ht : tableAt x.1.mem root p = some f) : tableAt y.1.mem root p = some f := by
  induction hs with
  | refl => exact ht
  | tail hsteps hstep ih => exact hstep.tableAt_mono (OwnSteps.owns hsteps h) hp ih

end Kept

lemma Owns.cover_page {m : Machine P} (h : Owns root K D L m) (hl : walkLoc m.mem root a = some l) (hmem : l ∈ L) :
    Owns root K (fun v => D v ∨ v / 4096 = a / 4096) L m := by
  refine { h with cover := ?_ }
  rintro v (hv | hv) l' hl'
  · exact h.cover v hv l' hl'
  rw [PresentAt, walkLoc_page hv, hl] at hl'
  cases hl'.1
  exact hmem

lemma Owns.mono {E : ℕ → Prop} {m : Machine P}
    (h : Owns root K D L m) (hDE : ∀ v, E v → D v) : Owns root K E L m :=
  { h with cover := fun v hv => h.cover v (hDE v hv) }

end Obelisk
