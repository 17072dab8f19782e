import Mathlib.Data.List.Nodup

/-!
# Circular doubly linked lists

Intrusive lists in the style of `list_head`: every node has two links, a list is a ring through its
head, and a node that is on no list points to itself.
-/

namespace KLib

variable {α : Type*}

/-- The links of circular lists. -/
structure Links (α : Type*) where
  next : α → α
  prev : α → α

namespace Links

def Solo (L : Links α) (x : α) : Prop := L.next x = x ∧ L.prev x = x

def Agree (L L' : Links α) (x : α) : Prop := L'.next x = L.next x ∧ L'.prev x = L.prev x

end Links

open Links Function List

variable {L L' : Links α} {a b h x y : α} {l l1 l2 : List α}

lemma Links.Agree.solo (hs : L.Solo x) (ha : L.Agree L' x) : L'.Solo x :=
  ⟨ha.1.trans hs.1, ha.2.trans hs.2⟩

def Path (L : Links α) : α → List α → α → Prop
  | a, [], b => L.next a = b ∧ L.prev b = a
  | a, x :: l, b => L.next a = x ∧ L.prev x = a ∧ Path L x l b

lemma path_append : Path L a (l1 ++ x :: l2) b ↔ Path L a l1 x ∧ Path L x l2 b := by
  induction l1 generalizing a with
  | nil => simp [Path, and_assoc]
  | cons y l1 ih => simp [Path, ih, and_assoc]

/-- **The frame rule**: a path depends on the forward links of all nodes but the last and on the
back links of all nodes but the first. -/
theorem Path.congr (hp : Path L a l b) (hn : ∀ y ∈ a :: l, L'.next y = L.next y)
    (hpr : ∀ y ∈ b :: l, L'.prev y = L.prev y) : Path L' a l b := by
  induction l generalizing a with
  | nil => exact ⟨(hn a (by simp)).trans hp.1, (hpr b (by simp)).trans hp.2⟩
  | cons y l ih =>
    obtain ⟨h1, h2, hp⟩ := hp
    refine ⟨(hn a (by simp)).trans h1, (hpr y (by simp)).trans h2, ih hp ?_ ?_⟩
    · exact fun z hz => hn z (mem_cons_of_mem _ hz)
    intro z hz
    rcases mem_cons.mp hz with rfl | hz
    · exact hpr z (by simp)
    · exact hpr z (by simp [hz])

lemma Path.next_mem (hp : Path L a l b) : L.next a ∈ b :: l := by
  cases l with
  | nil | cons => simp [hp.1]

lemma Path.prev_mem (hp : Path L a l b) : L.prev b ∈ a :: l := by
  induction l generalizing a with
  | nil => simp [hp.2]
  | cons y l ih => exact mem_cons_of_mem _ (ih hp.2.2)

/-- `l` is the circular list with the head `h`. -/
structure Ring (L : Links α) (h : α) (l : List α) : Prop where
  path : Path L h l h
  nodup : (h :: l).Nodup

lemma Ring.congr (hr : Ring L h l) (he : ∀ y ∈ h :: l, L.Agree L' y) : Ring L' h l :=
  ⟨hr.path.congr (fun y hy => (he y hy).1) fun y hy => (he y hy).2, hr.nodup⟩

lemma ring_nil (hs : L.Solo h) : Ring L h [] := ⟨hs, by simp⟩

lemma Ring.first (hr : Ring L h (x :: l)) : L.next h = x := hr.path.1

lemma Ring.next_eq (hr : Ring L h (l1 ++ x :: l2)) : L.next x = l2.headD h := by
  have hp := (path_append.mp hr.path).2
  cases l2 <;> exact hp.1

lemma Ring.next_head (hr : Ring L h l) : L.next h = l.headD h := by
  have hp := hr.path
  cases l <;> exact hp.1

lemma Ring.last (hr : Ring L h (l ++ [x])) : L.prev h = x := (path_append.mp hr.path).2.2

lemma Ring.links_mem (hr : Ring L h l) (hx : x ∈ l) :
    (L.next x ∈ h :: l ∧ L.next x ≠ x) ∧ (L.prev x ∈ h :: l ∧ L.prev x ≠ x) := by
  obtain ⟨l1, l2, rfl⟩ := append_of_mem hx
  obtain ⟨h1, h2⟩ := path_append.mp hr.path
  have hn := h2.next_mem
  have hp := h1.prev_mem
  have hnd := hr.nodup
  simp only [nodup_cons, mem_append, mem_cons, not_or, nodup_append] at hnd
  refine ⟨⟨?_, ?_⟩, ?_, ?_⟩
  · rcases mem_cons.mp hn with e | e <;> simp [e]
  · intro e
    rw [e] at hn
    rcases mem_cons.mp hn with e | e
    · exact hnd.1.2.1 e.symm
    · exact hnd.2.2.1.1 e
  · rcases mem_cons.mp hp with e | e <;> simp [e]
  intro e
  rw [e] at hp
  rcases mem_cons.mp hp with e | e
  · exact hnd.1.2.1 e.symm
  · exact hnd.2.2.2 _ e _ (.inl rfl) rfl

/-! ## Operations -/

variable [DecidableEq α]

namespace Links

def init (x : α) (L : Links α) : Links α :=
  ⟨update L.next x x, update L.prev x x⟩

/-- `__list_add(x, p, n)`, with its four writes in order. -/
def add (x p n : α) (L : Links α) : Links α :=
  let prev := update L.prev n x
  let next := update L.next x n
  ⟨update next p x, update prev x p⟩

def addTail (x h : α) (L : Links α) : Links α := L.add x (L.prev h) h

def addHead (x h : α) (L : Links α) : Links α := L.add x h (L.next h)

def del (x : α) (L : Links α) : Links α :=
  init x ⟨update L.next (L.prev x) (L.next x), update L.prev (L.next x) (L.prev x)⟩

def empty (h : α) (L : Links α) : Bool := L.next h == h

end Links

lemma Links.init_solo (L : Links α) (x : α) : (L.init x).Solo x :=
  ⟨update_self .., update_self ..⟩

lemma Links.init_agree (L : Links α) (hne : y ≠ x) : L.Agree (L.init x) y :=
  ⟨update_of_ne hne .., update_of_ne hne ..⟩

lemma Ring.empty_iff (hr : Ring L h l) : L.empty h = true ↔ l = [] := by
  rw [empty, beq_iff_eq]
  cases l with
  | nil => simp [hr.path.1]
  | cons x l =>
    have hne : x ≠ h := fun e => (nodup_cons.mp hr.nodup).1 (e ▸ mem_cons_self)
    simp [hr.path.1, hne]

lemma Ring.addTail (hr : Ring L h l) (hx : x ∉ h :: l) : Ring (L.addTail x h) h (l ++ [x]) := by
  have hp := hr.path.prev_mem
  obtain ⟨hxh, hxl⟩ : x ≠ h ∧ x ∉ l := by simpa using hx
  have hxp : x ≠ L.prev h := fun e => hx (e ▸ hp)
  refine ⟨path_append.mpr ⟨?_, ?_⟩, ?_⟩
  · -- the old path up to the last node, whose forward link now leads to `x`
    have hnext : ∀ y, y ≠ x → y ≠ L.prev h → (L.addTail x h).next y = L.next y := fun y h1 h2 => by
      simp [Links.addTail, Links.add, update_of_ne h1, update_of_ne h2]
    have hlast : (L.addTail x h).next (L.prev h) = x ∧ (L.addTail x h).prev x = L.prev h := by
      simp [Links.addTail, Links.add]
    have hprev : ∀ y, y ≠ x → y ≠ h → (L.addTail x h).prev y = L.prev y := fun y h1 h2 => by
      simp [Links.addTail, Links.add, update_of_ne h1, update_of_ne h2]
    have hnd := hr.nodup
    rcases eq_nil_or_concat l with rfl | ⟨l', p, rfl⟩
    · have : L.prev h = h := hr.path.2
      rwa [this] at hlast
    rw [concat_eq_append] at hr hnd hxl ⊢
    obtain ⟨h1, -, h2⟩ := path_append.mp hr.path
    rw [h2] at hlast hnext
    refine path_append.mpr ⟨h1.congr (fun y hy => hnext y ?_ ?_) (fun y hy => hprev y ?_ ?_), hlast⟩
    all_goals
      simp only [nodup_cons, mem_append, not_or, nodup_append, mem_cons, not_mem_nil, or_false] at hnd hxl hy
      rintro rfl
      grind
  · simp [Path, Links.addTail, Links.add, update_of_ne hxh.symm, update_of_ne hxp]
  rw [← cons_append, nodup_append]
  exact ⟨hr.nodup, by simp, fun y hy z hz => by simp at hz; rintro rfl; exact hx (hz ▸ hy)⟩

lemma Ring.addTail_agree (hr : Ring L h l) (hy : y ∉ h :: l) (hne : y ≠ x) :
    L.Agree (L.addTail x h) y := by
  have hp : y ≠ L.prev h := fun e => hy (e ▸ hr.path.prev_mem)
  have hh : y ≠ h := fun e => hy (e ▸ mem_cons_self)
  constructor <;> simp [Links.addTail, Links.add, update_of_ne hne, update_of_ne hp, update_of_ne hh]

lemma Ring.addHead (hr : Ring L h l) (hx : x ∉ h :: l) : Ring (L.addHead x h) h (x :: l) := by
  obtain ⟨hxh, hxl⟩ : x ≠ h ∧ x ∉ l := by simpa using hx
  have hnd := hr.nodup
  have hnext : ∀ y, y ≠ x → y ≠ h → (L.addHead x h).next y = L.next y := fun y h1 h2 => by
    simp [Links.addHead, Links.add, update_of_ne h1, update_of_ne h2]
  have hprev : ∀ y, y ≠ x → y ≠ L.next h → (L.addHead x h).prev y = L.prev y := fun y h1 h2 => by
    simp [Links.addHead, Links.add, update_of_ne h1, update_of_ne h2]
  have hfirst : (L.addHead x h).next h = x ∧ (L.addHead x h).prev x = h := by
    simp [Links.addHead, Links.add]
  have hxn : L.next h ≠ x := fun e => hx (by rw [← e]; exact hr.path.next_mem)
  have hsecond : (L.addHead x h).next x = L.next h ∧ (L.addHead x h).prev (L.next h) = x := by
    simp [Links.addHead, Links.add, update_of_ne hxh, update_of_ne hxn]
  refine ⟨⟨hfirst.1, hfirst.2, ?_⟩, nodup_cons.mpr ⟨?_, nodup_cons.mpr ⟨hxl, hnd.of_cons⟩⟩⟩
  · cases l with
    | nil =>
      rwa [hr.path.1] at hsecond
    | cons y l =>
      obtain ⟨hy, -, hp⟩ := hr.path
      rw [hy] at hsecond hprev
      simp only [nodup_cons, mem_cons, not_or] at hnd hxl
      refine ⟨hsecond.1, hsecond.2, hp.congr (fun z hz => hnext z ?_ ?_) fun z hz => hprev z ?_ ?_⟩
      all_goals
        simp only [mem_cons] at hz
        rintro rfl
        grind
  · simpa [hxh.symm] using (nodup_cons.mp hnd).1

lemma Path.join (h₁ : Path L a l1 x) (h₂ : Path L x l2 b) (hnd : (a :: (l1 ++ x :: l2)).Nodup)
    (hb : b ∉ l1 ++ x :: l2) : Path (L.del x) a (l1 ++ l2) b := by
  have hnext : ∀ y, y ≠ x → y ≠ L.prev x → (L.del x).next y = L.next y := fun y h1 h2 => by
    simp [del, init, update_of_ne h1, update_of_ne h2]
  have hprev : ∀ y, y ≠ x → y ≠ L.next x → (L.del x).prev y = L.prev y := fun y h1 h2 => by
    simp [del, init, update_of_ne h1, update_of_ne h2]
  have hn := h₂.next_mem
  induction l1 generalizing a with
  | nil =>
    obtain ⟨-, hpa⟩ := h₁
    have hax : a ≠ x := by rintro rfl; simp at hnd
    -- the node before `x` is `a`, whose forward link now skips `x`
    have hskip : ∀ y, L.next x = y → y ≠ x →
        (L.del x).next a = y ∧ (L.del x).prev y = a := fun y hy hyx => by
      simp [del, init, hpa, hy, update_of_ne hax, update_of_ne hyx]
    cases l2 with
    | nil => exact hskip b h₂.1 (by rintro rfl; simp at hb)
    | cons y l2 =>
      obtain ⟨hy, -, h₂⟩ := h₂
      obtain ⟨h1, h2⟩ := hskip y hy (by rintro rfl; simp at hnd)
      rw [hpa] at hnext
      rw [hy] at hprev
      simp only [nil_append, nodup_cons, mem_cons, not_or] at hnd hb
      refine ⟨h1, h2, h₂.congr (fun z hz => hnext z ?_ ?_) fun z hz => hprev z ?_ ?_⟩
      all_goals
        simp only [mem_cons] at hz
        rintro rfl
        grind
  | cons y l1 ih =>
    obtain ⟨h1, h2, h₁⟩ := h₁
    have hp := h₁.prev_mem
    simp only [cons_append, nodup_cons, mem_cons, mem_append, not_or] at hnd hb
    refine ⟨(hnext a ?_ ?_).trans h1, (hprev y ?_ ?_).trans h2, ih h₁ ?_ ?_⟩
    · exact hnd.1.2.2.1
    · intro e
      rw [← e, mem_cons] at hp
      exact hp.elim hnd.1.1 hnd.1.2.1
    · exact hnd.2.1.2.1
    · intro e
      rw [← e, mem_cons] at hn
      exact hn.elim (fun e => hb.1 e.symm) hnd.2.1.2.2
    · simpa using hnd.2
    · simpa using hb.2

lemma Ring.del (hr : Ring L h (l1 ++ x :: l2)) : Ring (L.del x) h (l1 ++ l2) := by
  obtain ⟨h1, h2⟩ := path_append.mp hr.path
  refine ⟨h1.join h2 hr.nodup (nodup_cons.mp hr.nodup).1, ?_⟩
  exact hr.nodup.sublist ((List.Sublist.refl l1).append (sublist_cons_self x l2) |>.cons_cons h)

lemma Ring.del_solo (L : Links α) (x : α) : (L.del x).Solo x := init_solo _ x

lemma Ring.del_agree (hr : Ring L h l) (hx : x ∈ l) (hy : y ∉ h :: l) : L.Agree (L.del x) y := by
  obtain ⟨⟨hn, -⟩, hp, -⟩ := hr.links_mem hx
  have hyx : y ≠ x := fun e => hy (e ▸ mem_cons_of_mem _ hx)
  have hyn : y ≠ L.next x := fun e => hy (e ▸ hn)
  have hyp : y ≠ L.prev x := fun e => hy (e ▸ hp)
  constructor <;> simp [Links.del, Links.init, update_of_ne hyx, update_of_ne hyn, update_of_ne hyp]

end KLib
