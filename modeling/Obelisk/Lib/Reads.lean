import Mathlib.Tactic.Common

/-!
# Computations that read memory

A value of `Reads ρ α` computes an `α` from a memory of bytes and records every offset it reads,
together with the region `ρ` it is read through.
-/

namespace KLib

variable {ρ α β : Type}

def Reads (ρ α : Type) : Type := (ℕ → UInt8) → α × List (ρ × ℕ)

namespace Reads

def val (m : Reads ρ α) (mem : ℕ → UInt8) : α := (m mem).1

def log (m : Reads ρ α) (mem : ℕ → UInt8) : List (ρ × ℕ) := (m mem).2

instance : Monad (Reads ρ) where
  pure a := fun _ => (a, [])
  bind m f := fun mem => ((f (m mem).1 mem).1, (m mem).2 ++ (f (m mem).1 mem).2)

def byte (r : ρ) (i : ℕ) : Reads ρ UInt8 := fun mem => (mem i, [(r, i)])

def bytes (r : ρ) (i n : ℕ) : Reads ρ (List UInt8) := fun mem =>
  ((List.range n).map fun k => mem (i + k), (List.range n).map fun k => (r, i + k))

variable {P Q : ρ → ℕ → Prop} {mem : ℕ → UInt8}

@[simp] lemma val_pure (a : α) : (pure a : Reads ρ α).val mem = a := rfl

@[simp] lemma val_bind (m : Reads ρ α) (f : α → Reads ρ β) :
    (m >>= f).val mem = (f (m.val mem)).val mem := rfl

@[simp] lemma val_byte (r : ρ) (i : ℕ) : (byte r i).val mem = mem i := rfl

@[simp] lemma val_bytes (r : ρ) (i n : ℕ) :
    (bytes r i n).val mem = (List.range n).map fun k => mem (i + k) := rfl

@[simp] lemma val_ite (c : Prop) [Decidable c] (m m' : Reads ρ α) :
    (if c then m else m').val mem = if c then m.val mem else m'.val mem := by
  split_ifs <;> rfl

def Within (P : ρ → ℕ → Prop) (m : Reads ρ α) (mem : ℕ → UInt8) : Prop := ∀ e ∈ m.log mem, P e.1 e.2

@[simp] lemma within_pure (a : α) : Within P (pure a : Reads ρ α) mem :=
  fun _ h => nomatch h

@[simp] lemma within_bind (m : Reads ρ α) (f : α → Reads ρ β) :
    Within P (m >>= f) mem ↔ Within P m mem ∧ Within P (f (m.val mem)) mem := by
  change (∀ e ∈ m.log mem ++ (f (m.val mem)).log mem, P e.1 e.2) ↔ _
  simp only [List.mem_append, or_imp, forall_and]
  rfl

@[simp] lemma within_byte (r : ρ) (i : ℕ) : Within P (byte r i) mem ↔ P r i := by
  change (∀ e ∈ [(r, i)], P e.1 e.2) ↔ _
  simp

@[simp] lemma within_bytes (r : ρ) (i n : ℕ) :
    Within P (bytes r i n) mem ↔ ∀ k < n, P r (i + k) := by
  change (∀ e ∈ (List.range n).map fun k => (r, i + k), P e.1 e.2) ↔ _
  simp

@[simp] lemma within_ite (c : Prop) [Decidable c] (m m' : Reads ρ α) :
    Within P (if c then m else m') mem ↔ (c → Within P m mem) ∧ (¬ c → Within P m' mem) := by
  split_ifs with h <;> simp [h]

end Reads

end KLib
