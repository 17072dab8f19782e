import Mathlib.Algebra.Group.Nat.Defs
import Mathlib.Data.List.DropRight
import Mathlib.Data.List.Forall2

/-!
# Text as bytes

Text files read by the line, with keys and decimal numbers.
-/

namespace KLib

open List

variable {s t : Bytes} {n v : ℕ}

abbrev Bytes : Type := List UInt8

def str (s : String) : Bytes := s.toList.map fun c => c.toNat.toUInt8

def cstr (buf : Bytes) : Bytes := buf.takeWhile (· ≠ 0)

lemma cstr_pre (buf : Bytes) : cstr buf <+: buf := takeWhile_prefix _

lemma cstr_take_prefix (n : ℕ) (buf : Bytes) : cstr (buf.take n) <+: buf :=
  (cstr_pre _).trans (List.take_prefix ..)

/-- The lines of a text. A newline ends a line; the text behind the last one is a line if it is not
empty. -/
def lines : Bytes → List Bytes
  | [] => []
  | c :: s =>
    if c = 10 then [] :: lines s
    else
      match lines s with
      | [] => [[c]]
      | l :: ls => (c :: l) :: ls

/-- The lines of a prefix are prefixes of the first lines of the text. -/
theorem forall₂_lines_pre (h : s <+: t) :
    List.Forall₂ (· <+: ·) (lines s) ((lines t).take (lines s).length) := by
  induction s generalizing t with
  | nil => exact .nil
  | cons c s ih =>
    obtain ⟨t, rfl⟩ : ∃ t', t = c :: t' := by
      obtain ⟨u, rfl⟩ := h
      exact ⟨s ++ u, rfl⟩
    have ih := ih (cons_prefix_cons.mp h).2
    by_cases hc : c = 10
    · simp only [lines, if_pos hc, length_cons, take_succ_cons]
      exact .cons nil_prefix ih
    simp only [lines, if_neg hc]
    cases hs : lines s with
    | nil => cases lines t <;> simp
    | cons l ls =>
      rw [hs] at ih
      cases ht : lines t with
      | nil => simp [ht] at ih
      | cons l' ls' =>
        rw [ht] at ih
        simp only [length_cons, take_succ_cons, forall₂_cons] at ih ⊢
        exact ⟨cons_prefix_cons.mpr ⟨rfl, ih.1⟩, ih.2⟩

lemma exists_of_forall₂ {α β : Type*} {R : α → β → Prop} {xs : List α} {ys : List β}
    (h : List.Forall₂ R xs ys) {x : α} (hx : x ∈ xs) : ∃ y ∈ ys, R x y := by
  induction h with
  | nil => simp at hx
  | cons hr _ ih =>
    rcases mem_cons.mp hx with rfl | hx
    · exact ⟨_, mem_cons_self, hr⟩
    obtain ⟨y, hy, hr⟩ := ih hx
    exact ⟨y, mem_cons_of_mem _ hy, hr⟩

lemma exists_line_of_prefix {l : Bytes} (h : s <+: t) (hl : l ∈ lines s) :
    ∃ l' ∈ lines t, l <+: l' := by
  obtain ⟨l', hl', hp⟩ := exists_of_forall₂ (forall₂_lines_pre h) hl
  exact ⟨l', mem_of_mem_take hl', hp⟩

def isBlank (c : UInt8) : Bool := c == 32 || c == 9 || c == 13 || c == 10

def trim (s : Bytes) : Bytes := (s.dropWhile isBlank).rdropWhile isBlank

lemma rdropWhile_append_of_self {α : Type*} {p : α → Bool} {x : List α} (h : x.rdropWhile p = x)
    (y : List α) : (x ++ y).rdropWhile p = x ++ y.rdropWhile p := by
  have h' : x.reverse.dropWhile p = x.reverse := by
    rwa [← reverse_inj, reverse_reverse]
  simp only [rdropWhile, reverse_append, dropWhile_append]
  split
  · rename_i he
    rw [h', isEmpty_iff.mp he]
    simp
  · simp

lemma trim_prefix (h : s <+: t) (hs : trim s ≠ []) : trim s <+: trim t := by
  obtain ⟨u, rfl⟩ := h
  have hd : s.dropWhile isBlank ≠ [] := fun he => hs (by simp [trim, he])
  obtain ⟨w, hw⟩ := rdropWhile_prefix isBlank (s.dropWhile isBlank)
  have ht : trim (s ++ u) = trim s ++ (w ++ u).rdropWhile isBlank := by
    rw [trim, dropWhile_append, if_neg (by simpa using hd), ← hw, append_assoc]
    exact rdropWhile_append_of_self (rdropWhile_idempotent ..) _
  exact ht ▸ prefix_append _ _

def isDigit (c : UInt8) : Bool := 48 ≤ c && c ≤ 57

def decimalFrom : Bytes → ℕ → Option ℕ
  | [], v => some v
  | c :: s, v => if isDigit c then decimalFrom s (v * 10 + (c.toNat - 48)) else none

def decimal (s : Bytes) : Option ℕ := if s = [] then none else decimalFrom s 0

lemma decimal_eq (h : s ≠ []) : decimal s = decimalFrom s 0 := if_neg h

lemma decimalFrom_of_decimal (h : decimal s = some n) : s ≠ [] ∧ decimalFrom s 0 = some n := by
  have h0 : s ≠ [] := by rintro rfl; cases h
  exact ⟨h0, decimal_eq h0 ▸ h⟩

lemma decimalFrom_append (p r : Bytes) (v : ℕ) :
    decimalFrom (p ++ r) v = (decimalFrom p v).bind (decimalFrom r) := by
  induction p generalizing v with
  | nil => rfl
  | cons c p ih =>
    simp only [cons_append, decimalFrom]
    split_ifs
    · exact ih _
    · rfl

lemma decimalFrom_eq_some (h : decimalFrom s v = some n) : v ≤ n ∧ ∀ c ∈ s, isDigit c = true := by
  induction s generalizing v with
  | nil => simpa using (Option.some.inj h).le
  | cons c s ih =>
    simp only [decimalFrom] at h
    split_ifs at h with hc
    obtain ⟨hle, hd⟩ := ih h
    exact ⟨by omega, by simpa [hc] using hd⟩

lemma decimalFrom_of_prefix {p d : Bytes} (hp : p <+: d) (h : decimalFrom d v = some n) :
    ∃ m ≤ n, decimalFrom p v = some m := by
  obtain ⟨r, rfl⟩ := hp
  rw [decimalFrom_append] at h
  obtain ⟨m, hm, hr⟩ := Option.bind_eq_some_iff.mp h
  exact ⟨m, (decimalFrom_eq_some hr).1, hm⟩

def decimalWrapFrom (n : ℕ) : Bytes → ℕ → Option ℕ
  | [], v => some v
  | c :: s, v =>
    if isDigit c then decimalWrapFrom n s ((v * 10 + (c.toNat - 48)) % 2 ^ n) else none

lemma decimalWrapFrom_eq (n : ℕ) (s : Bytes) (v : ℕ) :
    decimalWrapFrom n s (v % 2 ^ n) = (decimalFrom s v).map (· % 2 ^ n) := by
  induction s generalizing v with
  | nil => rfl
  | cons c s ih =>
    simp only [decimalWrapFrom, decimalFrom]
    split
    · rw [← ih, Nat.add_mod, Nat.mul_mod, Nat.mod_mod, ← Nat.mul_mod, ← Nat.add_mod]
    · rfl

section LastValue

variable {κ α β σ : Type*} [DecidableEq κ]

def lastValue (k : κ) (kvs : List (κ × α)) : Option α :=
  kvs.foldl (fun v kv => if kv.1 = k then some kv.2 else v) none

variable {f : σ → κ × α → σ} {get : σ → β} {g : α → β} {k : κ}

lemma foldl_lastValue_aux
    (hset : ∀ s v, get (f s (k, v)) = g v) (hkeep : ∀ s kv, kv.1 ≠ k → get (f s kv) = get s)
    (kvs : List (κ × α)) (s : σ) (o : Option α) (b : β) (h : get s = (o.map g).getD b) :
    get (kvs.foldl f s) =
      ((kvs.foldl (fun v kv => if kv.1 = k then some kv.2 else v) o).map g).getD b := by
  induction kvs generalizing s o with
  | nil => exact h
  | cons kv kvs ih =>
    obtain ⟨k', v⟩ := kv
    refine ih _ _ ?_
    by_cases hk : k' = k
    · subst hk
      simp [hset]
    · simp [hk, hkeep s (k', v) hk, h]

lemma foldl_lastValue
    (hset : ∀ s v, get (f s (k, v)) = g v) (hkeep : ∀ s kv, kv.1 ≠ k → get (f s kv) = get s)
    (kvs : List (κ × α)) (s : σ) :
    get (kvs.foldl f s) = ((lastValue k kvs).map g).getD (get s) :=
  foldl_lastValue_aux hset hkeep kvs s none _ rfl

end LastValue

end KLib
