import Mathlib.Data.List.Range
import Obelisk.Lib.Loop

/-!
# Buffers with a fill count

A buffer is a function from positions to values together with the number of positions in use.
-/

namespace KLib

open Function List

variable {α : Type*}

def contents (buf : ℕ → α) (n : ℕ) : List α := (List.range n).map buf

def blit (buf : ℕ → α) (off : ℕ) (data : List α) : ℕ → α := fun i =>
  if i < off then buf i else data.getD (i - off) (buf i)

def shiftDown (n len : ℕ) (buf : ℕ → α) : ℕ → α :=
  forRange (fun i b => update b (i - n) (b i)) n (len - n) buf

@[simp] lemma length_contents (buf : ℕ → α) (n : ℕ) : (contents buf n).length = n := by
  simp [contents]

lemma getElem_contents {buf : ℕ → α} {n i : ℕ} (h : i < (contents buf n).length) :
    (contents buf n)[i] = buf i := by
  simp [contents]

lemma contents_blit (buf : ℕ → α) (off : ℕ) (data : List α) :
    contents (blit buf off data) (off + data.length) = contents buf off ++ data := by
  apply ext_getElem
  · simp
  intro i h1 h2
  rw [getElem_contents, getElem_append]
  by_cases hi : i < off
  · rw [dif_pos (by simpa using hi), getElem_contents, blit, if_pos hi]
  have hlen : i - off < data.length := by
    simp only [length_contents] at h1
    omega
  rw [dif_neg (by simpa using hi), blit, if_neg hi, getD_eq_getElem?_getD, getElem?_eq_getElem hlen]
  simp

lemma shiftDown_apply {n len : ℕ} (buf : ℕ → α) {j : ℕ} (hj : j < len - n) :
    shiftDown n len buf j = buf (j + n) := by
  -- below `i - n` the values have moved, from `i` on nothing has changed
  let P : ℕ → (ℕ → α) → Prop := fun i b => n ≤ i ∧ (∀ j < i - n, b j = buf (j + n)) ∧
    ∀ j, i ≤ j → b j = buf j
  have h0 : P n buf := ⟨le_rfl, fun j hj => absurd hj (by omega), fun _ _ => rfl⟩
  have hend : P (n + (len - n)) (shiftDown n len buf) := by
    refine forRange_inv P h0 fun i b h1 h2 ⟨hn, hmoved, hrest⟩ => ⟨by omega, fun j hj => ?_, fun j hj => ?_⟩
    · by_cases he : j = i - n
      · rw [he, update_self, hrest i le_rfl]
        congr 1
        omega
      · rw [update_of_ne he]
        exact hmoved j (by omega)
    rw [update_of_ne (by omega)]
    exact hrest j (by omega)
  exact hend.2.1 j (by omega)

lemma contents_shiftDown {n len : ℕ} (buf : ℕ → α) :
    contents (shiftDown n len buf) (len - n) = (contents buf len).drop n := by
  apply ext_getElem
  · simp
  intro i h1 h2
  rw [getElem_contents, shiftDown_apply buf (by simpa using h1), getElem_drop, getElem_contents, Nat.add_comm]

end KLib
