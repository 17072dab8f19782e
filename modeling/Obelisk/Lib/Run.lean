import Mathlib.Tactic.Common

/-!
# Runs and simulation

A system is a function that performs one operation and returns its result and the next state.
-/

namespace KLib

variable {ι σ ρ α : Type*}
variable {s : σ} {ops : List ι} {P Q : ι → σ → Prop} {step : ι → σ → ρ × σ}

def runOps (step : ι → σ → ρ × σ) : List ι → σ → List ρ × σ
  | [], s => ([], s)
  | op :: ops, s =>
    let r := step op s
    let rest := runOps step ops r.2
    (r.1 :: rest.1, rest.2)

lemma runOps_append (step : ι → σ → ρ × σ) (ops ops' : List ι) (s : σ) :
    (runOps step (ops ++ ops') s).2 = (runOps step ops' (runOps step ops s).2).2 := by
  induction ops generalizing s with
  | nil => rfl
  | cons op ops ih => exact ih _

/-- The abstract transitions, one for each operation with its result. -/
inductive Trace (Step : ι → α → ρ → α → Prop) : List ι → α → List ρ → α → Prop
  | nil (a : α) : Trace Step [] a [] a
  | cons {op : ι} {ops : List ι} {a b c : α} {r : ρ} {rs : List ρ} :
      Step op a r b → Trace Step ops b rs c → Trace Step (op :: ops) a (r :: rs) c

lemma runOps_inv (Inv : σ → Prop) (hstep : ∀ op s, Inv s → Inv (step op s).2) (ops : List ι) (hs : Inv s) :
    Inv (runOps step ops s).2 := by
  induction ops generalizing s with
  | nil => exact hs
  | cons op ops ih => exact ih (hstep op s hs)

def Along (step : ι → σ → ρ × σ) (P : ι → σ → Prop) : List ι → σ → Prop
  | [], _ => True
  | op :: ops, s => P op s ∧ Along step P ops (step op s).2

instance decidableAlong (step : ι → σ → ρ × σ) (P : ι → σ → Prop) [∀ op s, Decidable (P op s)] :
    ∀ (ops : List ι) (s : σ), Decidable (Along step P ops s)
  | [], _ => .isTrue trivial
  | op :: ops, s =>
    have := decidableAlong step P ops
    inferInstanceAs (Decidable (P op s ∧ Along step P ops (step op s).2))

/-- **The invariant rule of runs under a condition**: `Q` on the operations and `P` on each operation
in the state in which it is performed. -/
theorem runOps_inv_along {Q : ι → Prop} (Inv : σ → Prop) (hstep : ∀ op s, Q op → P op s → Inv s → Inv (step op s).2)
    (hQ : ∀ op ∈ ops, Q op) (hP : Along step P ops s) (hs : Inv s) :
    Inv (runOps step ops s).2 := by
  induction ops generalizing s with
  | nil => exact hs
  | cons op ops ih =>
    have h1 := hstep op s (hQ op List.mem_cons_self) hP.1 hs
    exact ih (fun o ho => hQ o (List.mem_cons_of_mem _ ho)) hP.2 h1

lemma Along.imp
    (h : Along step P ops s) (hPQ : ∀ op s, P op s → Q op s) : Along step Q ops s := by
  induction ops generalizing s with
  | nil => trivial
  | cons op ops ih => exact ⟨hPQ op s h.1, ih h.2⟩

lemma Along.and (hP : Along step P ops s) (hQ : Along step Q ops s) :
    Along step (fun op s => P op s ∧ Q op s) ops s := by
  induction ops generalizing s with
  | nil => trivial
  | cons op ops ih => exact ⟨⟨hP.1, hQ.1⟩, ih hP.2 hQ.2⟩

lemma along_true (step : ι → σ → ρ × σ) (ops : List ι) (s : σ) :
    Along step (fun _ _ => True) ops s := by
  induction ops generalizing s with
  | nil => trivial
  | cons op ops ih => exact ⟨trivial, ih _⟩

lemma along_append (step : ι → σ → ρ × σ) (P : ι → σ → Prop) (ops ops' : List ι) (s : σ) :
    Along step P (ops ++ ops') s ↔
      Along step P ops s ∧ Along step P ops' (runOps step ops s).2 := by
  induction ops generalizing s with
  | nil => exact (true_and _).to_iff.symm
  | cons op ops ih => exact (and_congr_right fun _ => ih _).trans and_assoc.symm

/-- **An exact condition for one step is exact for runs**: the invariant holds in every state that
is reached just when every operation meets the condition. -/
theorem forall_prefix_iff_along (Inv : σ → Prop)
    (hstep : ∀ op s, Inv s → (Inv (step op s).2 ↔ P op s)) (ops : List ι) (hs : Inv s) :
    (∀ pre, pre <+: ops → Inv (runOps step pre s).2) ↔ Along step P ops s := by
  induction ops generalizing s with
  | nil =>
    refine ⟨fun _ => trivial, fun _ pre hpre => ?_⟩
    rwa [List.prefix_nil.mp hpre]
  | cons op ops ih =>
    constructor
    · intro h
      have h1 : Inv (step op s).2 := h [op] (List.cons_prefix_cons.mpr ⟨rfl, List.nil_prefix⟩)
      exact ⟨(hstep op s hs).mp h1,
        (ih h1).mp fun pre hpre => h (op :: pre) (List.cons_prefix_cons.mpr ⟨rfl, hpre⟩)⟩
    rintro ⟨hp, hrest⟩ pre hpre
    have h1 := (hstep op s hs).mpr hp
    cases pre with
    | nil => exact hs
    | cons o pre =>
      obtain ⟨rfl, hpre'⟩ := List.cons_prefix_cons.mp hpre
      exact (ih h1).mpr hrest pre hpre'

/-- **Simulation**: if every operation keeps the invariant and is an abstract transition, every run
is a sequence of abstract transitions. -/
theorem runOps_simulates {Step : ι → α → ρ → α → Prop} (Inv : σ → Prop) (abs : σ → α) (hstep : ∀ op s, Inv s →
      Inv (step op s).2 ∧ Step op (abs s) (step op s).1 (abs (step op s).2))
    (ops : List ι) (hs : Inv s) :
    Inv (runOps step ops s).2 ∧
      Trace Step ops (abs s) (runOps step ops s).1 (abs (runOps step ops s).2) := by
  induction ops generalizing s with
  | nil => exact ⟨hs, .nil _⟩
  | cons op ops ih =>
    obtain ⟨hi, ht⟩ := hstep op s hs
    obtain ⟨hi', ht'⟩ := ih hi
    exact ⟨hi', .cons ht ht'⟩

end KLib
