import Mathlib.Data.Set.Card

/-!
# Frame allocators

The interface through which page tables and address spaces obtain and release physical frames, with
the laws their proofs rely on.
-/

namespace KLib

/-- An allocator of 4 KiB frames. Allocations return a physical address, `0` on failure. -/
class FramePool (P : Type) where
  allocPage : P → ℕ × P
  allocPages : ℕ → P → ℕ × P
  freePage : ℕ → P → P
  Free : P → ℕ → Prop
  allocPage_mono : ∀ {p : P} {f : ℕ}, Free (allocPage p).2 f → Free p f
  allocPage_fresh : ∀ {p : P}, (allocPage p).1 ≠ 0 → ∃ f, (allocPage p).1 = f * 4096 ∧
    f < 2 ^ 40 ∧ Free p f ∧ ¬ Free (allocPage p).2 f
  allocPages_mono : ∀ {n : ℕ} {p : P} {f : ℕ}, Free (allocPages n p).2 f → Free p f
  allocPages_fresh : ∀ {n : ℕ} {p : P}, (allocPages n p).1 ≠ 0 →
    ∃ f, (allocPages n p).1 = f * 4096 ∧ f + n ≤ 2 ^ 40 ∧ 0 < n ∧
      ∀ j, f ≤ j → j < f + n → Free p j ∧ ¬ Free (allocPages n p).2 j
  freePage_mono : ∀ {phys : ℕ} {p : P} {f : ℕ}, Free (freePage phys p) f → Free p f ∨ f = phys / 4096

namespace FramePool

variable {P : Type} [FramePool P]

def takes : ℕ → P → P
  | 0, p => p
  | n + 1, p => (allocPage (takes n p)).2

def Supplies (n : ℕ) (p : P) : Prop := ∀ i < n, (allocPage (takes i p)).1 ≠ 0

instance (n : ℕ) (p : P) : Decidable (Supplies n p) := inferInstanceAs (Decidable (∀ i < n, _))

lemma takes_add (a b : ℕ) (p : P) : takes (a + b) p = takes b (takes a p) := by
  induction b with
  | zero => rfl
  | succ b ih => rw [← add_assoc, takes, ih, takes]

lemma Supplies.mono {a b : ℕ} {p : P} (h : Supplies b p) (hab : a ≤ b) : Supplies a p :=
  fun i hi => h i (hi.trans_le hab)

lemma supplies_add {a b : ℕ} {p : P} :
    Supplies (a + b) p ↔ Supplies a p ∧ Supplies b (takes a p) := by
  constructor
  · intro h
    refine ⟨h.mono (Nat.le_add_right a b), fun i hi => ?_⟩
    rw [← takes_add]
    exact h (a + i) (Nat.add_lt_add_left hi a)
  rintro ⟨ha, hb⟩ i hi
  rcases lt_or_ge i a with hia | hia
  · exact ha i hia
  have := hb (i - a) (by omega)
  rwa [← takes_add, Nat.add_sub_cancel' hia] at this

lemma Supplies.succ {n : ℕ} {p : P} (h : Supplies n p) (hn : (allocPage (takes n p)).1 ≠ 0) :
    Supplies (n + 1) p := fun i hi => by
  rcases Nat.lt_succ_iff_lt_or_eq.mp hi with hi | rfl
  · exact h i hi
  · exact hn

lemma not_supplies {n k : ℕ} {p : P} (hk : (allocPage (takes k p)).1 = 0) (hn : k < n) :
    ¬ Supplies n p := fun h => h k hn hk

end FramePool

/-- An allocator that counts its free frames. Frame `0` cannot be handed out, its address means
failure. -/
class CountedPool (P : Type) extends FramePool P where
  count : P → ℕ
  Managed : P → ℕ → Prop
  finite_free : ∀ p : P, { f | Free p f }.Finite
  count_eq : ∀ p : P, count p = { f | Free p f }.ncard
  managed_of_free : ∀ {p : P} {f : ℕ}, Free p f → Managed p f
  managed_allocPage : ∀ {p : P} {f : ℕ}, Managed p f → Managed (allocPage p).2 f
  managed_freePage : ∀ {phys : ℕ} {p : P} {f : ℕ}, Managed p f → Managed (freePage phys p) f
  allocPage_count : ∀ {p : P}, (allocPage p).1 ≠ 0 → count (allocPage p).2 + 1 = count p
  allocPage_empty : ∀ {p : P}, ¬ Free p 0 → (allocPage p).1 = 0 → count p = 0 ∧ (allocPage p).2 = p
  allocPages_one_count : ∀ {p : P}, (allocPages 1 p).1 ≠ 0 → count (allocPages 1 p).2 + 1 = count p
  freePage_count : ∀ {phys : ℕ} {p : P}, Managed p (phys / 4096) → ¬ Free p (phys / 4096) →
    count (freePage phys p) = count p + 1

namespace CountedPool

variable {P : Type} [CountedPool P]

lemma free_allocPage {p : P} {g : ℕ} (hg : (FramePool.allocPage p).1 = g * 4096)
    (h0 : (FramePool.allocPage p).1 ≠ 0) (f : ℕ) :
    FramePool.Free (FramePool.allocPage p).2 f ↔ FramePool.Free p f ∧ f ≠ g := by
  obtain ⟨g', hg', -, hfree, htaken⟩ := FramePool.allocPage_fresh h0
  obtain rfl : g = g' := by omega
  have hsub : { f | FramePool.Free (FramePool.allocPage p).2 f } ⊆ { f | FramePool.Free p f } \ {g} := by
    rintro f hf
    refine ⟨FramePool.allocPage_mono hf, ?_⟩
    rintro rfl
    exact htaken hf
  have hcount := allocPage_count h0
  rw [count_eq, count_eq] at hcount
  have hcard := Set.ncard_sdiff_singleton_add_one (show g ∈ { f | FramePool.Free p f } from hfree) (finite_free p)
  have heq := Set.eq_of_subset_of_ncard_le hsub (by omega) ((finite_free p).sdiff)
  exact Set.ext_iff.mp heq f

lemma managed_takes {p : P} {f : ℕ} (h : Managed p f) (n : ℕ) : Managed (FramePool.takes n p) f := by
  induction n with
  | zero => exact h
  | succ n ih => exact managed_allocPage ih

lemma free_freePage {p : P} {g : ℕ} (hm : Managed p g) (hg : ¬ FramePool.Free p g) (f : ℕ) :
    FramePool.Free (FramePool.freePage (g * 4096) p) f ↔ FramePool.Free p f ∨ f = g := by
  have hdiv : g * 4096 / 4096 = g := by omega
  have hsub : { f | FramePool.Free (FramePool.freePage (g * 4096) p) f } ⊆
      insert g { f | FramePool.Free p f } := by
    rintro f hf
    rcases FramePool.freePage_mono hf with h | rfl
    · exact .inr h
    · exact .inl hdiv
  have hcount : count (FramePool.freePage (g * 4096) p) = count p + 1 :=
    freePage_count (hdiv.symm ▸ hm) (hdiv.symm ▸ hg)
  rw [count_eq, count_eq] at hcount
  have hcard := Set.ncard_insert_of_notMem (show g ∉ { f | FramePool.Free p f } from hg) (finite_free p)
  have heq := Set.eq_of_subset_of_ncard_le hsub (by omega) ((finite_free p).insert g)
  exact (Set.ext_iff.mp heq f).trans (Or.comm)

end CountedPool

end KLib
