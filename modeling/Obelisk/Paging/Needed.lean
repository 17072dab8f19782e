import Obelisk.Paging.Owned

/-!
# The tables that pages need

How far the tables on the way to an address exist is its `reach`: the last table and the indices
that lead on from it.
-/

namespace Obelisk

open KLib Finset List

variable {q r : List ℕ} {mem mem' : PhysMem} {top : Bool} {t v w : ℕ} {l : Loc} {S : Finset ℕ}
variable {f g i root virt : ℕ} {p : List ℕ}

abbrev Key := ℕ × List ℕ

def reachFrom (mem : PhysMem) : Bool → ℕ → List ℕ → Key
  | _, f, [] => (f, [])
  | top, f, i :: p =>
    match nextTable top (mem f i) with
    | some g => reachFrom mem false g p
    | none => (f, i :: p)

def reach (mem : PhysMem) (root virt : ℕ) : Key := reachFrom mem true root (pathOf virt)

def leafKey (mem : PhysMem) (root virt : ℕ) : Key :=
  ((reach mem root virt).1, (reach mem root virt).2 ++ [ptIndex virt])

def Key.tables (k : Key) : Finset Key :=
  (Finset.range k.2.length).image fun n => (k.1, k.2.take (n + 1))

def Key.blocked (mem : PhysMem) : Key → Bool
  | (_, []) => false
  | (f, i :: _) => pteIsPresent (mem f i)

def needs (mem : PhysMem) (root virt : ℕ) : Finset Key :=
  if (reach mem root virt).blocked mem then ∅ else (reach mem root virt).tables

def needed (mem : PhysMem) (root : ℕ) (S : Finset ℕ) : Finset Key := S.biUnion (needs mem root)

lemma Key.mem_tables {k : Key} : (f, q) ∈ k.tables ↔ f = k.1 ∧ q ≠ [] ∧ q <+: k.2 := by
  rw [tables, mem_image]
  constructor
  · rintro ⟨n, hn, he⟩
    cases he
    rw [Finset.mem_range] at hn
    refine ⟨rfl, fun h0 => ?_, take_prefix ..⟩
    have := congrArg length h0
    rw [length_take, length_nil] at this
    omega
  rintro ⟨rfl, hq, hpre⟩
  have hpos : 0 < q.length := length_pos_iff.mpr hq
  have hle := hpre.length_le
  refine ⟨q.length - 1, Finset.mem_range.mpr (by omega), Prod.ext rfl ?_⟩
  show k.2.take (q.length - 1 + 1) = q
  rw [Nat.sub_add_cancel hpos]
  exact (prefix_iff_eq_take.mp hpre).symm

lemma reachFrom_nil : reachFrom mem top f p = (g, []) ↔ tableFrom mem top f p = some g := by
  induction p generalizing top f with
  | nil => simp [reachFrom, tableFrom]
  | cons i p ih =>
    rw [reachFrom, tableFrom]
    cases nextTable top (mem f i) with
    | none => simp
    | some h => exact ih

lemma reachFrom_table (hf : tableAt mem root p = some f) : ∃ r, r ++ (reachFrom mem p.isEmpty f q).2 = p ++ q ∧
      tableAt mem root r = some (reachFrom mem p.isEmpty f q).1 := by
  induction q generalizing p f with
  | nil => exact ⟨p, rfl, hf⟩
  | cons i q ih =>
    rw [reachFrom]
    cases hn : nextTable p.isEmpty (mem f i) with
    | none => exact ⟨p, rfl, hf⟩
    | some g =>
      obtain ⟨r, hr, ht⟩ := ih (tableAt_append_some.mpr ⟨f, hf, hn⟩)
      rw [isEmpty_eq_false_iff.mpr (by simp)] at hr ht
      exact ⟨r, by rw [hr, append_assoc, singleton_append], ht⟩

lemma reach_table (mem : PhysMem) (root virt : ℕ) : ∃ r, r ++ (reach mem root virt).2 = pathOf virt ∧
      tableAt mem root r = some (reach mem root virt).1 :=
  reachFrom_table (p := []) rfl

lemma reach_isPath
    (h : r ++ (reach mem root virt).2 = pathOf virt) : IsPath r := isPath_initial ⟨_, h⟩

lemma reachFrom_of_absent (h : tableFrom mem top f p = some t) (hn : pteIsPresent (mem t i) = false) :
    reachFrom mem top f (p ++ i :: q) = (t, i :: q) := by
  induction p generalizing top f with
  | nil =>
    cases h
    rw [nil_append, reachFrom, nextTable, hn]
    rfl
  | cons j p ih =>
    rw [tableFrom, Option.bind_eq_some_iff] at h
    obtain ⟨g, hg, ht⟩ := h
    rw [cons_append, reachFrom, hg]
    exact ih ht

lemma walkLoc_iff_leafKey (hs : LevelSep root mem) (hl : LastLevel root mem l) :
    walkLoc mem root virt = some l ↔ leafKey mem root virt = (l.1, [l.2]) := by
  constructor
  · intro h
    obtain ⟨ht, hi⟩ := walkLoc_lastLevel hs hl h
    have hr : reach mem root virt = (l.1, []) := reachFrom_nil.mpr ht
    rw [leafKey, hr, hi]
    rfl
  intro h
  obtain ⟨h1, h2⟩ := Prod.mk.inj h
  have hnil : (reach mem root virt).2 = [] := by
    have hlen := congrArg length h2
    rw [length_append, length_singleton, length_singleton] at hlen
    exact length_eq_zero_iff.mp (by omega)
  rw [hnil] at h2
  have ht : tableAt mem root (pathOf virt) = some l.1 := reachFrom_nil.mp (Prod.ext h1 hnil)
  rw [walkLoc_of_tableAt ht, (cons.inj h2).1]

def Key.loc (mem : PhysMem) : Key → Option Loc
  | (_, []) => none
  | (t, [j]) => some (t, j)
  | (t, i :: q) => if q.length ≠ 3 ∧ pteIsHuge (mem t i) = true then some (t, i) else none

lemma walkFrom_eq_loc (j : ℕ) (hlen : p.length ≤ 3) (htop : top = true ↔ p.length = 3) : walkFrom mem top f p j =
      Key.loc mem ((reachFrom mem top f p).1, (reachFrom mem top f p).2 ++ [j]) := by
  induction p generalizing top f with
  | nil => rfl
  | cons i p ih =>
    rw [length_cons] at hlen htop
    rw [walkFrom, reachFrom]
    cases hn : nextTable top (mem f i) with
    | some g =>
      have hstop : ¬ (!top && pteIsHuge (mem f i)) = true := by
        rcases (nextTable_some.mp hn).2.1 with h | h <;> rw [h]
        · exact Bool.false_ne_true
        rw [Bool.and_false]
        exact Bool.false_ne_true
      rw [if_neg hstop]
      exact ih (by omega) (iff_of_false Bool.false_ne_true (by omega))
    | none =>
      obtain ⟨k, q, hq⟩ : ∃ k q, p ++ [j] = k :: q := by
        cases p with
        | nil => exact ⟨j, [], rfl⟩
        | cons k p => exact ⟨k, p ++ [j], rfl⟩
      have hql : q.length = p.length := by
        have := congrArg length hq
        rw [length_append, length_singleton, length_cons] at this
        omega
      rw [cons_append, hq, Key.loc]
      · refine if_congr ?_ rfl rfl
        rw [Bool.and_eq_true, Bool.not_eq_true', ← Bool.not_eq_true, htop, length_cons, hql]
      · exact cons_ne_nil k q

lemma walkLoc_of_key
    (hk : leafKey mem root v = leafKey mem root w) : walkLoc mem root v = walkLoc mem root w := by
  have hloc : ∀ x, walkLoc mem root x = Key.loc mem (leafKey mem root x) := fun x =>
    walkFrom_eq_loc (ptIndex x) (le_refl 3) (iff_of_true rfl rfl)
  rw [hloc, hk, hloc]

lemma entryAt_of_key
    (hk : leafKey mem root v = leafKey mem root w) : entryAt mem root v = entryAt mem root w := by
  rw [entryAt, walkLoc_of_key hk, entryAt]

lemma Key.tables_eq_empty {k : Key} : k.tables = ∅ ↔ k.2 = [] := by
  rw [tables, image_eq_empty, range_eq_empty_iff, length_eq_zero_iff]

lemma walkFrom_eq_none_iff (hh : HugePresent root mem)
    (j : ℕ) (hpq : IsPath (p ++ q)) (hf : tableAt mem root p = some f) :
    walkFrom mem p.isEmpty f q j = none ↔ (reachFrom mem p.isEmpty f q).blocked mem = false ∧
      (reachFrom mem p.isEmpty f q).2 ≠ [] := by
  induction q generalizing p f with
  | nil => simp [walkFrom, reachFrom]
  | cons i q ih =>
    rw [append_cons] at hpq
    have hpath : IsPath (p ++ [i]) :=
      ⟨(prefix_append _ q).length_le.trans hpq.1, fun k hk => hpq.2 k (mem_append_left _ hk)⟩
    rw [walkFrom, reachFrom]
    cases hn : nextTable p.isEmpty (mem f i) with
    | some g =>
      have hstop : (!p.isEmpty && pteIsHuge (mem f i)) = false := by
        rcases (nextTable_some.mp hn).2.1 with h | h
        · rw [h]; rfl
        · rw [h, Bool.and_false]
      have hnext := ih hpq (tableAt_append_some.mpr ⟨f, hf, hn⟩)
      rw [isEmpty_eq_false_iff.mpr (by simp)] at hnext
      rwa [hstop, if_neg Bool.false_ne_true]
    | none =>
      by_cases hstop : (!p.isEmpty && pteIsHuge (mem f i)) = true
      · -- a huge entry is present
        rw [if_pos hstop]
        rw [Bool.and_eq_true, Bool.not_eq_true', isEmpty_eq_false_iff] at hstop
        have hpres := hh p f i hpath hstop.1 hf hstop.2
        refine iff_of_false (by rintro ⟨⟩) fun h => ?_
        exact Bool.noConfusion (hpres.symm.trans h.1)
      rw [if_neg hstop]
      refine iff_of_true rfl ⟨?_, cons_ne_nil _ _⟩
      rw [Bool.and_eq_true, Bool.not_eq_true', not_and_or, Bool.not_eq_false, Bool.not_eq_true] at hstop
      show pteIsPresent (mem f i) = false
      by_contra hpres
      rw [Bool.not_eq_false] at hpres
      have := nextTable_some.mpr ⟨hpres, hstop, rfl⟩
      rw [hn] at this
      cases this

lemma walkLoc_eq_none_iff (hh : HugePresent root mem) :
    walkLoc mem root virt = none ↔ needs mem root virt ≠ ∅ := by
  have h := walkFrom_eq_none_iff hh (ptIndex virt) (p := []) (isPath_pathOf virt) rfl
  rw [needs]
  refine h.trans ?_
  show (reach mem root virt).blocked mem = false ∧ (reach mem root virt).2 ≠ [] ↔ _
  cases (reach mem root virt).blocked mem with
  | true => simp
  | false => simp [Key.tables_eq_empty]

/-! ## Making a table -/

def Key.shift (f i g : ℕ) (k : Key) : Key :=
  match k with
  | (t, j :: q) => if (t, j) = (f, i) then (g, q) else (t, j :: q)
  | (t, []) => (t, [])

lemma Key.shift_self (f i g : ℕ) (q : List ℕ) : shift f i g (f, i :: q) = (g, q) := if_pos rfl

lemma Key.shift_of_ne {j : ℕ} (h : (t, j) ≠ (f, i)) :
    shift f i g (t, j :: q) = (t, j :: q) := if_neg h

lemma Key.shift_inj {k k' : Key} (hk : k.1 ≠ g) (hk' : k'.1 ≠ g) (h0 : k.2 ≠ [])
    (h0' : k'.2 ≠ []) (h : shift f i g k = shift f i g k') : k = k' := by
  obtain ⟨t, _ | ⟨j, q⟩⟩ := k
  · exact absurd rfl h0
  obtain ⟨t', _ | ⟨j', q'⟩⟩ := k'
  · exact absurd rfl h0'
  by_cases he : (t, j) = (f, i) <;> by_cases he' : (t', j') = (f, i)
  · cases he
    cases he'
    rw [shift_self, shift_self] at h
    rw [(Prod.mk.inj h).2]
  · cases he
    rw [shift_self, shift_of_ne he'] at h
    exact absurd (Prod.mk.inj h).1.symm hk'
  · cases he'
    rw [shift_self, shift_of_ne he] at h
    exact absurd (Prod.mk.inj h).1 hk
  · rwa [shift_of_ne he, shift_of_ne he'] at h

variable {P : Type} [FramePool P]

section NewTable

variable {root f i g : ℕ} {p : List ℕ} {m m' : Machine P} (h : NewTable root p f i g m m') (hu : TablesUsed root m)
include h hu

lemma NewTable.reachFrom_eq {t0 : ℕ} (hq : IsPath (r ++ q))
    (hf : tableAt m.mem root r = some t0) : reachFrom m'.mem r.isEmpty t0 q =
      Key.shift f i g (reachFrom m.mem r.isEmpty t0 q) := by
  induction q generalizing r t0 with
  | nil => rfl
  | cons j q ih =>
    rw [append_cons] at hq
    have hpath : IsPath r := ⟨(prefix_append r _).length_le.trans
      ((prefix_append _ q).length_le.trans hq.1),
      fun k hk => hq.2 k (mem_append_left _ (mem_append_left _ hk))⟩
    rw [reachFrom, reachFrom]
    by_cases he : (t0, j) = (f, i)
    · obtain ⟨rfl, rfl⟩ := Prod.mk.inj he
      have hnone : nextTable r.isEmpty (m.mem t0 j) = none := by
        rw [nextTable, h.absent]
        rfl
      rw [h.next_self, hnone]
      dsimp only
      rw [Key.shift_self]
      -- the new table is empty
      cases q with
      | nil => rfl
      | cons k q =>
        rw [reachFrom, h.mem_new hu, nextTable, pteIsPresent_zero]
        rfl
    rw [h.mem_of_ne hu hpath hf he]
    cases hn : nextTable r.isEmpty (m.mem t0 j) with
    | none => exact (Key.shift_of_ne he).symm
    | some t0' =>
      have hnext := ih hq (tableAt_append_some.mpr ⟨t0, hf, hn⟩)
      rwa [isEmpty_eq_false_iff.mpr (by simp)] at hnext

lemma NewTable.reach_eq (virt : ℕ) :
    reach m'.mem root virt = Key.shift f i g (reach m.mem root virt) :=
  h.reachFrom_eq hu (r := []) (isPath_pathOf virt) rfl

lemma NewTable.reach_ne (virt : ℕ) : (reach m.mem root virt).1 ≠ g := by
  obtain ⟨r, hr, ht⟩ := reach_table m.mem root virt
  exact h.ne_of_table hu (reach_isPath hr) ht

lemma NewTable.leafKey_eq (hs : LevelSep root m.mem) (virt : ℕ) :
    leafKey m'.mem root virt = Key.shift f i g (leafKey m.mem root virt) := by
  rw [leafKey, h.reach_eq hu, leafKey]
  obtain ⟨r, hr, ht⟩ := reach_table m.mem root virt
  generalize hk : reach m.mem root virt = k at hr ht ⊢
  obtain ⟨t, _ | ⟨j, q⟩⟩ := k
  · -- a last-level table gets no table
    refine (Key.shift_of_ne fun he => ?_).symm
    obtain rfl : t = f := (Prod.mk.inj he).1
    rw [append_nil] at hr
    have hlen := hs _ _ _ (hr ▸ isPath_pathOf virt) h.isPath.left ht h.table
    have hle := h.isPath.1
    rw [length_append, length_singleton, ← hlen, hr] at hle
    exact absurd hle (by simp [pathOf])
  by_cases he : (t, j) = (f, i)
  · cases he
    rw [Key.shift_self, cons_append, Key.shift_self]
  · rw [Key.shift_of_ne he, cons_append, Key.shift_of_ne he]

lemma NewTable.leafKey_iff (hs : LevelSep root m.mem) (v w : ℕ) : leafKey m'.mem root v = leafKey m'.mem root w ↔
      leafKey m.mem root v = leafKey m.mem root w := by
  rw [h.leafKey_eq hu hs, h.leafKey_eq hu hs]
  refine ⟨fun he => ?_, fun he => by rw [he]⟩
  exact Key.shift_inj (h.reach_ne hu v) (h.reach_ne hu w) (by simp [leafKey]) (by simp [leafKey]) he

omit hu in
lemma NewTable.mem_needs (hp : p ++ [i] <+: pathOf virt) : (f, [i]) ∈ needs m.mem root virt := by
  obtain ⟨q, hq⟩ := hp
  have hr : reach m.mem root virt = (f, i :: q) := by
    rw [reach, ← hq, append_assoc]
    exact reachFrom_of_absent h.table h.absent
  have hb : (reach m.mem root virt).blocked m.mem = false := by
    rw [hr]
    exact h.absent
  rw [needs, hb, if_neg Bool.false_ne_true, hr, Key.mem_tables]
  exact ⟨rfl, cons_ne_nil _ _, ⟨q, rfl⟩⟩

lemma NewTable.needs_eq (virt : ℕ) : needs m'.mem root virt =
    ((needs m.mem root virt).erase (f, [i])).image (Key.shift f i g) := by
  rw [needs, needs, h.reach_eq hu]
  obtain ⟨r, hr, ht⟩ := reach_table m.mem root virt
  have hpath := reach_isPath hr
  generalize reach m.mem root virt = k at hr ht ⊢
  obtain ⟨t, _ | ⟨j, q⟩⟩ := k
  · rfl
  by_cases he : (t, j) = (f, i)
  · obtain ⟨rfl, rfl⟩ := Prod.mk.inj he
    have hnew : Key.blocked m'.mem (g, q) = false := by
      cases q with
      | nil => rfl
      | cons k q => exact (congrArg pteIsPresent (h.mem_new hu k)).trans pteIsPresent_zero
    have hold : Key.blocked m.mem (t, j :: q) = false := h.absent
    rw [Key.shift_self, hnew, hold, if_neg Bool.false_ne_true, if_neg Bool.false_ne_true]
    ext ⟨t', q'⟩
    rw [Key.mem_tables, mem_image]
    constructor
    · rintro ⟨rfl, hq0, hpre⟩
      refine ⟨(t, j :: q'), mem_erase.mpr ⟨fun hc => ?_, Key.mem_tables.mpr ⟨rfl, ?_, ?_⟩⟩, Key.shift_self ..⟩
      · exact hq0 (cons.inj (Prod.mk.inj hc).2).2
      · exact cons_ne_nil _ _
      · exact cons_prefix_cons.mpr ⟨rfl, hpre⟩
    rintro ⟨⟨t1, q1⟩, hmem, hshift⟩
    obtain ⟨hne, hmem⟩ := mem_erase.mp hmem
    obtain ⟨rfl, hq1, hpre⟩ := Key.mem_tables.mp hmem
    obtain _ | ⟨j1, q2⟩ := q1
    · exact absurd rfl hq1
    obtain ⟨rfl, hpre'⟩ := cons_prefix_cons.mp hpre
    rw [Key.shift_self] at hshift
    cases hshift
    exact ⟨rfl, fun h0 => hne (by rw [h0]), hpre'⟩
  have hsame : Key.blocked m'.mem (t, j :: q) = Key.blocked m.mem (t, j :: q) :=
    congrArg pteIsPresent (h.mem_of_ne hu hpath ht he)
  rw [Key.shift_of_ne he, hsame]
  cases Key.blocked m.mem (t, j :: q) with
  | true => rfl
  | false =>
    rw [if_neg Bool.false_ne_true]
    have hhead : ∀ k ∈ Key.tables (t, j :: q), ∃ q', k = (t, j :: q') := by
      rintro ⟨t', q'⟩ hk
      obtain ⟨rfl, hq0, hpre⟩ := Key.mem_tables.mp hk
      obtain _ | ⟨j', q'⟩ := q'
      · exact absurd rfl hq0
      obtain ⟨rfl, -⟩ := cons_prefix_cons.mp hpre
      exact ⟨q', rfl⟩
    have hnot : (f, [i]) ∉ Key.tables (t, j :: q) := fun hmem => by
      obtain ⟨q', hq'⟩ := hhead _ hmem
      obtain ⟨rfl, hl⟩ := Prod.mk.inj hq'
      exact he (by rw [(cons.inj hl).1])
    have hid : ∀ k ∈ Key.tables (t, j :: q), Key.shift f i g k = id k := fun k hk => by
      obtain ⟨q', rfl⟩ := hhead k hk
      exact Key.shift_of_ne he
    rw [erase_eq_of_notMem hnot, image_congr hid, image_id]

lemma NewTable.needed_ne {k : Key} (hk : k ∈ needed m.mem root S) : k.1 ≠ g ∧ k.2 ≠ [] := by
  obtain ⟨v, -, hk⟩ := mem_biUnion.mp hk
  rw [needs] at hk
  split_ifs at hk
  · exact absurd hk (notMem_empty k)
  obtain ⟨h1, h2, -⟩ := Key.mem_tables.mp hk
  exact ⟨h1 ▸ h.reach_ne hu v, h2⟩

lemma NewTable.card_needed (hp : p ++ [i] <+: pathOf virt)
    (hv : virt ∈ S) : (needed m'.mem root S).card + 1 = (needed m.mem root S).card := by
  have hmem : (f, [i]) ∈ needed m.mem root S :=
    mem_biUnion.mpr ⟨virt, hv, h.mem_needs hp⟩
  have himage : needed m'.mem root S =
      ((needed m.mem root S).erase (f, [i])).image (Key.shift f i g) := by
    rw [needed, needed, erase_biUnion, biUnion_image]
    exact biUnion_congr rfl fun v _ => h.needs_eq hu v
  have hinj : Set.InjOn (Key.shift f i g) ((needed m.mem root S).erase (f, [i])) := by
    intro k hk k' hk' he
    obtain ⟨h1, h2⟩ := h.needed_ne hu (mem_of_mem_erase hk)
    obtain ⟨h1', h2'⟩ := h.needed_ne hu (mem_of_mem_erase hk')
    exact Key.shift_inj h1 h1' h2 h2' he
  rw [himage, card_image_of_injOn hinj, card_erase_add_one hmem]

end NewTable

section Builds

variable {root virt k : ℕ} {m m' : Machine P} (h : Builds root virt k m m')
include h

lemma Builds.pool_eq : m'.pool = FramePool.takes k m.pool ∧ FramePool.Supplies k m.pool := by
  induction h with
  | refl m => exact ⟨rfl, nofun⟩
  | table _ _ hn ih =>
    obtain ⟨hpool, hsup⟩ := ih
    have hne := hn.ne_zero
    rw [hpool] at hne
    exact ⟨by rw [hn.pool, hpool, FramePool.takes], hsup.succ hne⟩

/-- Each table that is made is one less that is needed. -/
theorem Builds.card_needed (hu : TablesUsed root m) (hv : virt ∈ S) :
    (needed m'.mem root S).card + k = (needed m.mem root S).card := by
  induction h with
  | refl => rfl
  | table hb hp hn ih =>
    have := hn.card_needed (hb.toExtends.tablesUsed hu) hp hv
    have := ih hu
    omega

lemma Builds.leafKey_iff (hu : TablesUsed root m) (hs : LevelSep root m.mem) (v w : ℕ) :
    leafKey m'.mem root v = leafKey m'.mem root w ↔
      leafKey m.mem root v = leafKey m.mem root w := by
  induction h with
  | refl => exact .rfl
  | table hb _ hn ih =>
    exact (hn.leafKey_iff (hb.toExtends.tablesUsed hu) (hb.toExtends.levelSep hu hs) v w).trans (ih hu hs)

lemma Builds.hugePresent (hu : TablesUsed root m) (hh : HugePresent root m.mem) :
    HugePresent root m'.mem := by
  induction h with
  | refl => exact hh
  | table hb _ hn ih => exact hn.hugePresent (hb.toExtends.tablesUsed hu) (ih hu hh)

end Builds

lemma reachFrom_congr (hpq : IsPath (p ++ q)) (hf : tableAt mem root p = some f)
    (h : ∀ r t i, IsPath (r ++ [i]) → tableAt mem root r = some t → mem' t i = mem t i) :
    reachFrom mem' p.isEmpty f q = reachFrom mem p.isEmpty f q := by
  induction q generalizing p f with
  | nil => rfl
  | cons i q ih =>
    rw [append_cons] at hpq
    have hpath : IsPath (p ++ [i]) :=
      ⟨(prefix_append _ q).length_le.trans hpq.1, fun k hk => hpq.2 k (mem_append_left _ hk)⟩
    rw [reachFrom, reachFrom, h p f i hpath hf]
    cases hn : nextTable p.isEmpty (mem f i) with
    | none => rfl
    | some g =>
      have hnext := ih hpq (tableAt_append_some.mpr ⟨f, hf, hn⟩)
      rwa [isEmpty_eq_false_iff.mpr (by simp)] at hnext

section

variable (h : ∀ r t i, IsPath (r ++ [i]) → tableAt mem root r = some t → mem' t i = mem t i)
include h

lemma reach_congr (virt : ℕ) :
    reach mem' root virt = reach mem root virt :=
  reachFrom_congr (p := []) (isPath_pathOf virt) rfl h

lemma leafKey_congr (virt : ℕ) :
    leafKey mem' root virt = leafKey mem root virt := by
  rw [leafKey, reach_congr h, leafKey]

lemma needs_congr (virt : ℕ) :
    needs mem' root virt = needs mem root virt := by
  have hb : (reach mem root virt).blocked mem' = (reach mem root virt).blocked mem := by
    obtain ⟨r, hr, ht⟩ := reach_table mem root virt
    generalize reach mem root virt = k at hr ht ⊢
    obtain ⟨t, _ | ⟨j, q⟩⟩ := k
    · rfl
    have hpath : IsPath (r ++ [j]) := isPath_initial ⟨q, by rwa [append_assoc]⟩
    exact congrArg pteIsPresent (h r t j hpath ht)
  rw [needs, reach_congr h, hb, needs]

lemma needed_congr
    (S : Finset ℕ) : needed mem' root S = needed mem root S :=
  biUnion_congr rfl fun v _ => needs_congr h v

end

lemma write_upper (hs : LevelSep root mem) (hl : LastLevel root mem l) (w : BitVec 64) :
    ∀ r t i, IsPath (r ++ [i]) → tableAt mem root r = some t → mem.write l w t i = mem t i := by
  intro r t i hr ht
  have hlen := hr.1
  rw [length_append, length_singleton] at hlen
  exact write_middle hs hl w i hr.left (by omega) ht

end Obelisk
