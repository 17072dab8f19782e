import Mathlib.Data.List.Nodup

/-!
# Doubly linked lists in a heap

A heap maps addresses to cells with a value and two links; `0` is the null pointer and `none` an
address where no cell lives.
-/

namespace KLib

open Function List

variable {α : Type*} {x : ℕ}

/-- A node of a doubly linked list; `0` is the null pointer. -/
structure Cell (α : Type*) where
  val : α
  next : ℕ
  prev : ℕ

abbrev Heap (α : Type*) := ℕ → Option (Cell α)

def Heap.modify (h : Heap α) (p : ℕ) (f : Cell α → Cell α) : Option (Heap α) :=
  (h p).map fun c => Function.update h p (some (f c))

lemma Heap.modify_of_some {h : Heap α} {p : ℕ} {c : Cell α} (hp : h p = some c)
    (f : Cell α → Cell α) : h.modify p f = some (update h p (some (f c))) := by
  rw [Heap.modify, hp]; rfl

def Seg (h : Heap α) : ℕ → ℕ → List (ℕ × α) → ℕ → ℕ → Prop
  | prev, p, [], last, q => last = prev ∧ q = p
  | prev, p, (x, a) :: l, last, q =>
    x = p ∧ p ≠ 0 ∧ ∃ nx, h p = some ⟨a, nx, prev⟩ ∧ Seg h p nx l last q

variable {h k : Heap α} {prev p last q : ℕ} {l l1 l2 : List (ℕ × α)}

lemma seg_append : Seg h prev p (l1 ++ l2) last q ↔
    ∃ m r, Seg h prev p l1 m r ∧ Seg h m r l2 last q := by
  induction l1 generalizing prev p with
  | nil =>
    constructor
    · exact fun hs => ⟨prev, p, ⟨rfl, rfl⟩, hs⟩
    · rintro ⟨m, r, ⟨rfl, rfl⟩, hs⟩; exact hs
  | cons x l1 ih =>
    obtain ⟨x, a⟩ := x
    constructor
    · rintro ⟨rfl, h0, nx, hx, hs⟩
      obtain ⟨m, r, hs1, hs2⟩ := ih.mp hs
      exact ⟨m, r, ⟨rfl, h0, nx, hx, hs1⟩, hs2⟩
    rintro ⟨m, r, ⟨rfl, h0, nx, hx, hs1⟩, hs2⟩
    exact ⟨rfl, h0, nx, hx, ih.mpr ⟨m, r, hs1, hs2⟩⟩

section

variable (hs : Seg h prev p l last q)
include hs

lemma Seg.congr (he : ∀ x ∈ l.map Prod.fst, k x = h x) : Seg k prev p l last q := by
  induction l generalizing prev p with
  | nil => exact hs
  | cons x l ih =>
    obtain ⟨x, a⟩ := x
    obtain ⟨rfl, h0, nx, hx, hs⟩ := hs
    refine ⟨rfl, h0, nx, ?_, ih hs fun y hy => he y (mem_cons_of_mem _ hy)⟩
    rw [he x mem_cons_self, hx]

lemma Seg.update {c : Option (Cell α)}
    (hx : x ∉ l.map Prod.fst) : Seg (update h x c) prev p l last q := by
  refine hs.congr fun y hy => update_of_ne ?_ _ _
  rintro rfl
  exact hx hy

lemma Seg.mem_some {a : α} (hx : (x, a) ∈ l) : x ≠ 0 ∧ ∃ nx pv, h x = some ⟨a, nx, pv⟩ := by
  induction l generalizing prev p with
  | nil => cases hx
  | cons y l ih =>
    obtain ⟨y, b⟩ := y
    obtain ⟨rfl, h0, nx, hy, hs⟩ := hs
    rcases mem_cons.mp hx with he | hx
    · cases he; exact ⟨h0, nx, prev, hy⟩
    · exact ih hs hx

lemma Seg.isSome (hx : x ∈ l.map Prod.fst) : (h x).isSome := by
  obtain ⟨⟨y, a⟩, hy, rfl⟩ := mem_map.mp hx
  obtain ⟨-, nx, pv, hc⟩ := hs.mem_some hy
  rw [hc]; rfl

lemma Seg.last_cases : (l = [] ∧ last = prev ∧ q = p) ∨ ∃ l' a, l = l' ++ [(last, a)] := by
  induction l generalizing prev p with
  | nil => exact .inl ⟨rfl, hs.1, hs.2⟩
  | cons x l ih =>
    obtain ⟨x, a⟩ := x
    obtain ⟨rfl, -, nx, -, hs⟩ := hs
    rcases ih hs with ⟨rfl, rfl, -⟩ | ⟨l', b, rfl⟩
    · exact .inr ⟨[], a, rfl⟩
    · exact .inr ⟨(x, a) :: l', b, rfl⟩

end

def headPtr : List (ℕ × α) → ℕ
  | [] => 0
  | x :: _ => x.1

lemma Seg.eq_headPtr (hs : Seg h prev p l last 0) : p = headPtr l := by
  cases l with
  | nil => exact hs.2.symm
  | cons x l => exact hs.1.symm

lemma Seg.setNext {a : α} (hs : Seg h prev p (l ++ [(last, a)]) last q) (hn : last ∉ l.map Prod.fst) (r : ℕ) :
    ∃ c, h last = some c ∧
      Seg (Function.update h last (some { c with next := r })) prev p (l ++ [(last, a)]) last r := by
  obtain ⟨m, t, hs1, rfl, h0, nx, hx, -, -⟩ := seg_append.mp hs
  refine ⟨_, hx, seg_append.mpr ⟨m, last, hs1.update hn, rfl, h0, r, ?_, rfl, rfl⟩⟩
  rw [update_self]

lemma Seg.setPrev {a : α} (hs : Seg h prev p ((p, a) :: l) last q) (hn : p ∉ l.map Prod.fst) (r : ℕ) :
    ∃ c, h p = some c ∧
      Seg (Function.update h p (some { c with prev := r })) r p ((p, a) :: l) last q := by
  obtain ⟨-, h0, nx, hx, hs⟩ := hs
  refine ⟨_, hx, rfl, h0, nx, ?_, hs.update hn⟩
  rw [update_self]

lemma Seg.setVal {a : α} (hs : Seg h prev p (l1 ++ (x, a) :: l2) last q)
    (hn1 : x ∉ l1.map Prod.fst) (hn2 : x ∉ l2.map Prod.fst) (b : α) :
    ∃ c, h x = some c ∧ c.val = a ∧
      Seg (Function.update h x (some { c with val := b })) prev p (l1 ++ (x, b) :: l2) last q := by
  obtain ⟨m, t, hs1, rfl, h0, nx, hx, hs2⟩ := seg_append.mp hs
  refine ⟨_, hx, rfl, seg_append.mpr ⟨m, x, hs1.update hn1, rfl, h0, nx, ?_, hs2.update hn2⟩⟩
  rw [update_self]

end KLib
