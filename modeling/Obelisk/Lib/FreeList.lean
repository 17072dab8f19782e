import Mathlib.Data.Finset.Card
import Obelisk.Lib.Loop

/-!
# Free lists linked by index

The free entries of a table of `n` entries are chained through an array `next`, from the entry
`start` to the mark `stop`.
-/

namespace KLib

open Function Finset

variable {next : ℕ → ℕ} {stop start n i : ℕ} {l : List ℕ} {used : Finset ℕ}

def Chain (next : ℕ → ℕ) (stop : ℕ) : ℕ → List ℕ → Prop
  | i, [] => i = stop
  | i, j :: l => i = j ∧ j ≠ stop ∧ Chain next stop (next j) l

lemma Chain.congr {next' : ℕ → ℕ} (h : Chain next stop start l) (hl : ∀ j ∈ l, next' j = next j) :
    Chain next' stop start l := by
  induction l generalizing start with
  | nil => exact h
  | cons j l ih =>
    obtain ⟨h1, h2, h3⟩ := h
    refine ⟨h1, h2, ih ?_ fun k hk => hl k (List.mem_cons_of_mem _ hk)⟩
    rwa [hl j List.mem_cons_self]

/-- **A free list**: the entries below `n` that are not `used`. -/
structure IsFreeList (next : ℕ → ℕ) (stop start n : ℕ) (used : Finset ℕ) : Prop where
  used_lt : ∀ i ∈ used, i < n
  chain : ∃ l, Chain next stop start l ∧ l.Nodup ∧ ∀ i, i ∈ l ↔ i < n ∧ i ∉ used

section

variable (h : IsFreeList next stop start n used)
include h

lemma IsFreeList.pop (hs : start ≠ stop) :
    start < n ∧ start ∉ used ∧ IsFreeList next stop (next start) n (insert start used) := by
  obtain ⟨l, hc, hn, hm⟩ := h.chain
  cases l with
  | nil => exact absurd hc hs
  | cons j l =>
    obtain ⟨rfl, -, hc⟩ := hc
    obtain ⟨hlt, hfree⟩ := (hm start).mp List.mem_cons_self
    rw [List.nodup_cons] at hn
    refine ⟨hlt, hfree, ?_, l, hc, hn.2, fun i => ?_⟩
    · exact forall_mem_insert .. |>.mpr ⟨hlt, h.used_lt⟩
    have hi := hm i
    rw [List.mem_cons] at hi
    rw [mem_insert]
    constructor
    · intro hil
      have hne : i ≠ start := fun he => hn.1 (he ▸ hil)
      exact ⟨(hi.mp (.inr hil)).1, fun hor => hor.elim hne (hi.mp (.inr hil)).2⟩
    rintro ⟨hlt', hnot⟩
    exact (hi.mpr ⟨hlt', fun hu => hnot (.inr hu)⟩).resolve_left fun he => hnot (.inl he)

lemma IsFreeList.push (hi : i ∈ used) (hs : n ≤ stop) :
    IsFreeList (update next i start) stop i n (used.erase i) := by
  obtain ⟨l, hc, hn, hm⟩ := h.chain
  have hlt := h.used_lt i hi
  have hil : i ∉ l := fun hil => ((hm i).mp hil).2 hi
  refine ⟨fun j hj => h.used_lt j (mem_of_mem_erase hj), i :: l, ⟨rfl, by omega, ?_⟩,
    List.nodup_cons.mpr ⟨hil, hn⟩, fun j => ?_⟩
  · rw [update_self]
    refine hc.congr fun k hk => update_of_ne ?_ _ _
    rintro rfl
    exact hil hk
  rw [List.mem_cons, hm, mem_erase]
  by_cases hj : j = i
  · simp [hj, hlt]
  · simp [hj]

lemma IsFreeList.eq_stop_iff : start = stop ↔ used.card = n := by
  have hsub : used ⊆ range n := fun i hi => mem_range.mpr (h.used_lt i hi)
  constructor
  · intro he
    obtain ⟨l, hc, -, hm⟩ := h.chain
    have hnil : l = [] := by
      cases l with
      | nil => rfl
      | cons j l => exact absurd (he ▸ hc.1) hc.2.1.symm
    have heq : used = range n := by
      refine Subset.antisymm hsub fun i hi => ?_
      by_contra hu
      have := (hm i).mpr ⟨mem_range.mp hi, hu⟩
      rw [hnil] at this
      cases this
    rw [heq, card_range]
  intro hcard
  by_contra hne
  obtain ⟨hlt, hfree, -⟩ := h.pop hne
  have heq := eq_of_subset_of_card_le hsub (by rw [card_range, hcard])
  exact hfree (heq ▸ mem_range.mpr hlt)

end

lemma chain_range {k : ℕ} (hk : i + k = n) (hpos : 0 < k) (hs : n ≤ stop)
    (hnext : ∀ j, i ≤ j → j + 1 < n → next j = j + 1) (hlast : next (n - 1) = stop) :
    Chain next stop i (List.range' i k) := by
  induction k generalizing i with
  | zero => omega
  | succ k ih =>
    refine ⟨rfl, by omega, ?_⟩
    cases k with
    | zero =>
      rwa [show i = n - 1 by omega]
    | succ k =>
      rw [hnext i le_rfl (by omega)]
      exact ih (by omega) (by omega) fun j hj hlt => hnext j (by omega) hlt

lemma isFreeList_init (hpos : 0 < n) (hs : n ≤ stop) (hnext : ∀ j, j + 1 < n → next j = j + 1)
    (hlast : next (n - 1) = stop) : IsFreeList next stop 0 n ∅ := by
  refine ⟨fun i hi => by simp at hi, List.range' 0 n,
    chain_range (Nat.zero_add n) hpos hs (fun j _ => hnext j) hlast, List.nodup_range', fun i => ?_⟩
  simp [List.mem_range'_1]

lemma forRange_update {f : ℕ → ℕ} {a : ℕ → ℕ} (n : ℕ) {j : ℕ} (hj : j < n) :
    forRange (fun i a => update a i (f i)) 0 n a j = f j := by
  have hinv := forRange_inv (f := fun i a => update a i (f i)) (i := 0) (n := n) (s := a)
    (fun k a => ∀ j < k, a j = f j) nofun ?_
  · exact hinv j (by omega)
  intro k t _ _ ht j hj
  by_cases he : j = k
  · rw [he, update_self]
  rw [update_of_ne he]
  exact ht j (by omega)

end KLib
