import Mathlib.Tactic.Common

/-!
# Counted loops

`forRange f i n s` runs the body `f` on the `n` consecutive indices starting at `i`; it is the
loop `for (k = i; k < i + n; k++)` with an explicit state.
-/

namespace KLib

variable {σ : Type*}

def forRange (f : ℕ → σ → σ) : ℕ → ℕ → σ → σ
  | _, 0, s => s
  | i, n + 1, s => forRange f (i + 1) n (f i s)

lemma forRange_succ (f : ℕ → σ → σ) (i n : ℕ) (s : σ) :
    forRange f i (n + 1) s = f (i + n) (forRange f i n s) := by
  induction n generalizing i s with
  | zero => rfl
  | succ n ih =>
    change forRange f (i + 1) (n + 1) (f i s) = f (i + (n + 1)) (forRange f (i + 1) n (f i s))
    rw [ih, show i + 1 + n = i + (n + 1) by omega]

/-- **The invariant rule of a counted loop.** The invariant may mention the next index. -/
theorem forRange_inv {f : ℕ → σ → σ} (P : ℕ → σ → Prop) {i n : ℕ} {s : σ} (h0 : P i s)
    (hs : ∀ k t, i ≤ k → k < i + n → P k t → P (k + 1) (f k t)) : P (i + n) (forRange f i n s) := by
  induction n generalizing i s with
  | zero => exact h0
  | succ n ih =>
    have h1 := ih (hs i s (Nat.le_refl i) (by omega) h0) fun k t h1 h2 => hs k t (by omega) (by omega)
    rwa [show i + 1 + n = i + (n + 1) by omega] at h1

end KLib
