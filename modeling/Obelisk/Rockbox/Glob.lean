import Mathlib.Computability.Language
import Obelisk.Lib.Text

/-!
# Wildcards

`wildcard_match` of `userland/bin/rockbox/rockbox.c`.
-/

namespace Obelisk.Glob

open KLib List

variable {c : UInt8} {pat s : Bytes}

/-- The loop over the rest of `s`, which ends at its terminator. -/
def anySuffix (f : Bytes → Bool) : Bytes → Bool
  | [] => false
  | c :: s => f (c :: s) || anySuffix f s

def wildcardMatch : Bytes → Bytes → Bool
  | [], s => s.isEmpty
  | c :: pat, s =>
    if c = 42 then
      -- a run of stars is skipped
      if pat.head? = some 42 then wildcardMatch pat s
      else if pat = [] then true
      else anySuffix (wildcardMatch pat) s
    else
      match s with
      | [] => false
      | x :: s => if c = 63 then wildcardMatch pat s else if c ≠ x then false else wildcardMatch pat s

/-- What one character of a pattern stands for. -/
def symbol (c : UInt8) : Language UInt8 := {s | c = 42 ∨ ∃ x, s = [x] ∧ (c = 63 ∨ c = x)}

def glob (pat : Bytes) : Language UInt8 := (pat.map symbol).prod

lemma anySuffix_iff (f : Bytes → Bool) :
    anySuffix f s = true ↔ ∃ u v, s = u ++ v ∧ v ≠ [] ∧ f v = true := by
  induction s with
  | nil => simp [anySuffix]
  | cons c s ih =>
    rw [anySuffix, Bool.or_eq_true, ih]
    constructor
    · rintro (h | ⟨u, v, rfl, hv, h⟩)
      · exact ⟨[], c :: s, rfl, cons_ne_nil _ _, h⟩
      · exact ⟨c :: u, v, rfl, hv, h⟩
    rintro ⟨_ | ⟨d, u⟩, v, he, hv, h⟩
    · exact .inl (he ▸ h)
    · exact .inr ⟨u, v, (cons.inj he).2, hv, h⟩

lemma mem_glob_cons : s ∈ glob (c :: pat) ↔ ∃ u ∈ symbol c, ∃ v ∈ glob pat, u ++ v = s := by
  rw [glob, map_cons, prod_cons, Language.mem_mul]
  rfl

/-- **Wildcards are the glob language.** The recursion ends for all strings, as the pattern gets
shorter, and the answer is whether the string is in the language of the pattern. -/
theorem wildcardMatch_iff (pat s : Bytes) : wildcardMatch pat s = true ↔ s ∈ glob pat := by
  induction pat generalizing s with
  | nil => simp [wildcardMatch, glob, Language.mem_one]
  | cons c pat ih =>
    rw [wildcardMatch.eq_def, mem_glob_cons]
    dsimp only
    by_cases hc : c = 42
    · rw [if_pos hc]
      split_ifs with hd h0
      · -- the next star takes what this one leaves
        obtain ⟨pat, rfl⟩ := head?_eq_some_iff.mp hd
        rw [ih]
        refine ⟨fun h => ⟨[], .inl hc, s, h, rfl⟩, ?_⟩
        rintro ⟨u, -, v, hv, rfl⟩
        obtain ⟨u', -, v', hv', rfl⟩ := mem_glob_cons.mp hv
        exact mem_glob_cons.mpr ⟨u ++ u', .inl rfl, v', hv', append_assoc ..⟩
      · subst h0
        exact iff_of_true rfl ⟨s, .inl hc, [], (Language.mem_one _).mpr rfl, append_nil s⟩
      -- the empty string is not tried, and not in the language of the rest of the pattern
      have hne : [] ∉ glob pat := by
        obtain ⟨d, pat, rfl⟩ := exists_cons_of_ne_nil h0
        rw [mem_glob_cons]
        rintro ⟨u, hu, v, -, he⟩
        obtain ⟨rfl, -⟩ := append_eq_nil_iff.mp he
        rcases hu with rfl | ⟨x, hx, -⟩
        · exact hd rfl
        · cases hx
      rw [anySuffix_iff]
      constructor
      · rintro ⟨u, v, rfl, -, h⟩
        exact ⟨u, .inl hc, v, (ih v).mp h, rfl⟩
      rintro ⟨u, -, v, hv, rfl⟩
      exact ⟨u, v, rfl, ne_of_mem_of_not_mem hv hne, (ih v).mpr hv⟩
    rw [if_neg hc]
    constructor
    · rcases s with _ | ⟨x, s⟩
      · simp
      · dsimp only
        split_ifs with h63 hx <;> intro h
        · exact ⟨[x], .inr ⟨x, rfl, .inl h63⟩, s, (ih s).mp h, rfl⟩
        · cases h
        · exact ⟨[x], .inr ⟨x, rfl, .inr (not_not.mp hx)⟩, s, (ih s).mp h, rfl⟩
    rintro ⟨_, hu, v, hv, rfl⟩
    obtain ⟨x, rfl, hx⟩ := hu.resolve_left hc
    rw [← ih] at hv
    rcases hx with rfl | rfl <;> simp [hv]

end Obelisk.Glob
