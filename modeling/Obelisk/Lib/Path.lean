import Obelisk.Lib.Text

/-!
# Paths as lists of components
-/

namespace KLib

open List

variable {s t x : Bytes}

/-- The parts of a path between its slashes. -/
def comps (s : Bytes) : List Bytes := s.splitOn 47

def names (s : Bytes) : List Bytes := (comps s).filter fun c => c ≠ [] ∧ c ≠ [46]

lemma comps_of_notMem (h : 47 ∉ s) : comps s = [s] := splitOn_eq_singleton h

lemma comps_append (s t : Bytes) : comps (s ++ 47 :: t) = comps s ++ comps t :=
  splitOn_append_cons_of_beq s t rfl

@[simp] lemma comps_nil : comps [] = [[]] := rfl

@[simp] lemma comps_slash (s : Bytes) : comps (47 :: s) = [] :: comps s := comps_append [] s

/-- Induction over the components of a path. -/
theorem comps_induction {motive : Bytes → Prop} (last : ∀ s, 47 ∉ s → motive s)
    (more : ∀ s t, 47 ∉ s → motive t → motive (s ++ 47 :: t)) (s : Bytes) : motive s := by
  induction h : s.length using Nat.strong_induction_on generalizing s with
  | _ n ih =>
    by_cases hs : 47 ∈ s
    · obtain ⟨a, b, rfl, ha⟩ := eq_append_cons_of_mem hs
      exact more a b ha (ih b.length (by simp [← h]; omega) b rfl)
    · exact last s hs

lemma infix_of_mem_comps (h : x ∈ comps s) : x <:+: s := by
  induction s using comps_induction with
  | last s hs =>
    rw [comps_of_notMem hs, mem_singleton] at h
    exact h ▸ infix_rfl
  | more s t hs ih =>
    rw [comps_append, comps_of_notMem hs] at h
    rcases mem_cons.mp h with rfl | h
    · exact (prefix_append ..).isInfix
    · exact (ih h).trans ((suffix_cons ..).trans (suffix_append ..)).isInfix

lemma notMem_of_mem_comps (h : x ∈ comps s) : 47 ∉ x := by
  induction s using comps_induction with
  | last s hs =>
    rw [comps_of_notMem hs, mem_singleton] at h
    rwa [h]
  | more s t hs ih =>
    rw [comps_append, comps_of_notMem hs] at h
    rcases mem_cons.mp h with rfl | h
    · exact hs
    · exact ih h

lemma mem_comps_dropWhile (hx : x ≠ []) : x ∈ comps (s.dropWhile (· = 47)) ↔ x ∈ comps s := by
  induction s with
  | nil => rfl
  | cons c s ih =>
    by_cases hc : c = 47
    · simp [hc, hx, ih]
    · simp [hc]

/-- A component that is not empty is the first one or lies behind the first slash. -/
theorem mem_comps_iff (hx : x ≠ []) :
    x ∈ comps s ↔ s.takeWhile (· ≠ 47) = x ∨ x ∈ comps (s.dropWhile (· ≠ 47)) := by
  by_cases hs : 47 ∈ s
  · obtain ⟨a, b, rfl, ha⟩ := eq_append_cons_of_mem hs
    have hp : ∀ c ∈ a, decide (c ≠ 47) = true := fun c hc => by
      simpa using ne_of_mem_of_not_mem hc ha
    rw [comps_append, comps_of_notMem ha, takeWhile_append_of_pos hp, dropWhile_append_of_pos hp]
    simp [hx, eq_comm]
  have hp : ∀ c ∈ s, decide (c ≠ 47) = true := fun c hc => by
    simpa using ne_of_mem_of_not_mem hc hs
  rw [comps_of_notMem hs, takeWhile_eq_self_iff.mpr hp, dropWhile_eq_nil_iff.mpr hp]
  simp [hx, eq_comm]

end KLib
