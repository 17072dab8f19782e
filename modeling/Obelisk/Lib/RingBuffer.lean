import Mathlib.Data.List.Basic
import Mathlib.Data.Nat.ModEq

/-!
# Ring buffers

A buffer of `cap` cells in which `len` elements stand from cell `head` on, wrapping around at the
end.
-/

namespace KLib

open Function List

variable {α : Type*}

def ringWrite (cap : ℕ) : List α → ℕ → (ℕ → α) → ℕ → α
  | [], _, buf => buf
  | x :: xs, i, buf => ringWrite cap xs (i + 1) (update buf (i % cap) x)

def ringRead (cap : ℕ) (buf : ℕ → α) (i n : ℕ) : List α :=
  (List.range n).map fun j => buf ((i + j) % cap)

variable {cap : ℕ} {buf : ℕ → α} {xs : List α}

@[simp] lemma length_ringRead (i n : ℕ) : (ringRead cap buf i n).length = n := by
  rw [ringRead, length_map, length_range]

lemma ringRead_add (i m n : ℕ) :
    ringRead cap buf i (m + n) = ringRead cap buf i m ++ ringRead cap buf (i + m) n := by
  rw [ringRead, range_add, map_append, map_map]
  congr 1
  apply map_congr_left
  intro j _
  rw [comp_apply, add_assoc]

lemma ringRead_mod (i n : ℕ) : ringRead cap buf (i % cap) n = ringRead cap buf i n := by
  apply map_congr_left
  intro j _
  rw [Nat.mod_add_mod]

lemma ringWrite_mod (i : ℕ) : ringWrite cap xs (i % cap) buf = ringWrite cap xs i buf := by
  induction xs generalizing i buf with
  | nil => rfl
  | cons x xs ih =>
    rw [ringWrite, ringWrite, Nat.mod_mod, ← ih (i + 1), ← ih (i % cap + 1), Nat.mod_add_mod]

lemma ringWrite_of_ne {i c : ℕ} (h : ∀ j < xs.length, (i + j) % cap ≠ c) :
    ringWrite cap xs i buf c = buf c := by
  induction xs generalizing i buf with
  | nil => rfl
  | cons x xs ih =>
    have h0 : i % cap ≠ c := h 0 (Nat.succ_pos _)
    have hrest : ∀ j < xs.length, (i + 1 + j) % cap ≠ c := by
      intro j hj
      have := h (j + 1) (Nat.succ_lt_succ hj)
      rwa [← add_assoc, add_right_comm] at this
    rw [ringWrite, ih hrest, update_of_ne h0.symm]

lemma ringRead_write_self {i : ℕ} (h : xs.length ≤ cap) :
    ringRead cap (ringWrite cap xs i buf) i xs.length = xs := by
  induction xs generalizing i buf with
  | nil => rfl
  | cons x xs ih =>
    have hlen : xs.length < cap := h
    have hkeep : ringWrite cap xs (i + 1) (update buf (i % cap) x) (i % cap) = x := by
      rw [ringWrite_of_ne, update_self]
      intro j hj heq
      have hmod : (1 + j) % cap = 0 % cap := by
        apply Nat.ModEq.add_left_cancel' i
        rwa [← add_assoc]
      rw [Nat.mod_eq_of_lt (by omega), Nat.zero_mod] at hmod
      omega
    rw [ringWrite, length_cons, add_comm xs.length 1, ringRead_add,
      ih (le_of_lt hlen), ringRead, range_one, map_singleton]
    exact congrArg (· :: xs) hkeep

lemma ringRead_write {i len : ℕ} (h : len + xs.length ≤ cap) :
    ringRead cap (ringWrite cap xs (i + len) buf) i (len + xs.length) =
      ringRead cap buf i len ++ xs := by
  rw [ringRead_add, ringRead_write_self (by omega)]
  congr 1
  apply map_congr_left
  intro k hk
  have hk' := mem_range.mp hk
  apply ringWrite_of_ne
  intro j hj heq
  have hmod : (len + j) % cap = k % cap := by
    apply Nat.ModEq.add_left_cancel' i
    rwa [← add_assoc]
  rw [Nat.mod_eq_of_lt (by omega), Nat.mod_eq_of_lt (by omega)] at hmod
  omega

end KLib
