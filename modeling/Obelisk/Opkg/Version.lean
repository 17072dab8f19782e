import Mathlib.Order.PiLex
import Obelisk.Lib.Text

/-!
# Version numbers

`versionCmp` of `userland/bin/opkg/opkg_d.d`. A string is what stands before its `NUL`, and a cursor
is the rest of the string.
-/

namespace Obelisk.Opkg

open KLib List

variable {f g : ℕ → ℕ} {r : ℤ} {a b d rest s : Bytes} {n : ℕ} {ds : List Bytes} {ns : List ℕ}

def readNumber : ℕ → Bytes → ℕ × Bytes
  | v, [] => (v, [])
  | v, c :: s =>
    if isDigit c then readNumber ((v * 10 + (c.toNat - 48)) % 2 ^ 64) s else (v, c :: s)

def skipDot : Bytes → Bytes
  | [] => []
  | c :: s => if c = 46 then s else c :: s

/-- The outer loop with at most `fuel` rounds; `none` if it has not ended. -/
def versionCmp : ℕ → Bytes → Bytes → Option ℤ
  | 0, _, _ => none
  | fuel + 1, a, b =>
    if a = [] ∧ b = [] then some 0
    else
      let (va, a) := readNumber 0 a
      let (vb, b) := readNumber 0 b
      if va < vb then some (-1)
      else if vb < va then some 1
      else
        let a := skipDot a
        let b := skipDot b
        if a = [] ∧ b = [] then some 0 else versionCmp fuel a b

def Returns (a b : Bytes) (r : ℤ) : Prop := ∃ fuel, versionCmp fuel a b = some r

/-! ## The components of a version -/

def next (s : Bytes) : Bytes := skipDot (readNumber 0 s).2

/-- The number read in round `k`. -/
def component (s : Bytes) : ℕ → ℕ
  | 0 => (readNumber 0 s).1
  | k + 1 => component (next s) k

def Plain (s : Bytes) : Prop := ∀ c ∈ s, isDigit c ∨ c = 46

def Orders (r : ℤ) (f g : ℕ → ℕ) : Prop :=
  toLex f < toLex g ∧ r = -1 ∨ toLex g < toLex f ∧ r = 1 ∨ f = g ∧ r = 0

lemma Orders.cons (h0 : f 0 = g 0)
    (h : Orders r (fun k => f (k + 1)) (fun k => g (k + 1))) : Orders r f g := by
  have hlex : ∀ {f g : ℕ → ℕ}, f 0 = g 0 →
      toLex (fun k => f (k + 1)) < toLex (fun k => g (k + 1)) → toLex f < toLex g := by
    rintro f g h0 ⟨i, hj, hi⟩
    refine ⟨i + 1, fun j hji => ?_, hi⟩
    cases j with
    | zero => exact h0
    | succ j => exact hj j (Nat.lt_of_succ_lt_succ hji)
  refine h.imp (.imp_left (hlex h0)) (.imp (.imp_left (hlex h0.symm)) (.imp_left fun h => ?_))
  funext k
  cases k with
  | zero => exact h0
  | succ k => exact congrFun h k

lemma exists_orders (f g : ℕ → ℕ) : ∃ r, Orders r f g := by
  rcases lt_trichotomy (toLex f) (toLex g) with h | h | h
  · exact ⟨-1, .inl ⟨h, rfl⟩⟩
  · exact ⟨0, .inr (.inr ⟨toLex_inj.mp h, rfl⟩)⟩
  · exact ⟨1, .inr (.inl ⟨h, rfl⟩)⟩

lemma Orders.eq_zero_iff (h : Orders r f g) : r = 0 ↔ f = g := by
  rcases h with ⟨h, rfl⟩ | ⟨h, rfl⟩ | ⟨h, rfl⟩
  · exact iff_of_false (by decide) fun he => h.ne (congrArg toLex he)
  · exact iff_of_false (by decide) fun he => h.ne' (congrArg toLex he)
  · exact iff_of_true rfl h

lemma Orders.neg (h : Orders r f g) : Orders (-r) g f := by
  rcases h with ⟨h, rfl⟩ | ⟨h, rfl⟩ | ⟨h, rfl⟩
  · exact .inr (.inl ⟨h, rfl⟩)
  · exact .inl ⟨h, rfl⟩
  · exact .inr (.inr ⟨h.symm, rfl⟩)

lemma Orders.nonpos_iff (h : Orders r f g) : r ≤ 0 ↔ toLex f ≤ toLex g := by
  rcases h with ⟨h, rfl⟩ | ⟨h, rfl⟩ | ⟨h, rfl⟩
  · exact iff_of_true (by decide) h.le
  · exact iff_of_false (by decide) h.not_ge
  · exact iff_of_true le_rfl (congrArg toLex h).le

lemma Orders.unique {r' : ℤ} (h : Orders r f g) (h' : Orders r' f g) : r = r' := by
  have h0 := h.eq_zero_iff.trans h'.eq_zero_iff.symm
  have hle := h.nonpos_iff.trans h'.nonpos_iff.symm
  rcases h with ⟨-, rfl⟩ | ⟨-, rfl⟩ | ⟨-, rfl⟩ <;>
    rcases h' with ⟨-, rfl⟩ | ⟨-, rfl⟩ | ⟨-, rfl⟩ <;> simp_all

@[simp] lemma component_nil : component [] = fun _ => 0 := by
  funext k
  induction k with
  | zero => rfl
  | succ k ih => exact ih

lemma readNumber_snd (v : ℕ) (s : Bytes) : (readNumber v s).2 = s.dropWhile isDigit := by
  induction s generalizing v with
  | nil => rfl
  | cons c s ih => by_cases hc : isDigit c <;> simp [readNumber, hc, ih]

lemma mem_skipDot {c : UInt8} (h : c ∈ s) : c = 46 ∨ c ∈ skipDot s := by
  cases s with
  | nil => exact .inr h
  | cons d s => by_cases hd : d = 46 <;> simp_all [skipDot]

lemma skipDot_suffix (s : Bytes) : skipDot s <:+ s := by
  cases s with
  | nil => simp [skipDot]
  | cons c s => by_cases hc : c = 46 <;> simp [skipDot, hc]

lemma next_suffix (s : Bytes) : next s <:+ s := by
  rw [next, readNumber_snd]
  exact (skipDot_suffix _).trans (dropWhile_suffix isDigit)

lemma plain_next : Plain (next s) ↔ Plain s := by
  refine ⟨fun h c hc => ?_, fun h c hc => h c ((next_suffix s).subset hc)⟩
  simp only [Plain, next, readNumber_snd] at h
  rw [← takeWhile_append_dropWhile (p := isDigit) (l := s), mem_append] at hc
  rcases hc with hc | hc
  · exact .inl (mem_takeWhile_imp hc)
  · exact (mem_skipDot hc).elim .inr (h c)

lemma length_next (hp : Plain s) (h : s ≠ []) : (next s).length < s.length := by
  cases s with
  | nil => exact absurd rfl h
  | cons c s =>
    rw [next, readNumber_snd]
    by_cases hc : isDigit c
    · have := ((skipDot_suffix _).trans (dropWhile_suffix (l := s) isDigit)).length_le
      simpa [hc, Nat.lt_succ_iff] using this
    obtain rfl := (hp c (by simp)).resolve_left hc
    rw [dropWhile_cons_of_neg hc]
    simp [skipDot]

/-! ## The loop -/

lemma versionCmp_succ (n : ℕ) (a b : Bytes) : versionCmp (n + 1) a b = if a = [] ∧ b = [] then some 0
      else if component a 0 < component b 0 then some (-1)
      else if component b 0 < component a 0 then some 1
      else if next a = [] ∧ next b = [] then some 0 else versionCmp n (next a) (next b) :=
  rfl

lemma orders_of_versionCmp (h : versionCmp n a b = some r) :
    Orders r (component a) (component b) ∧ (r = 0 → Plain a ∧ Plain b) := by
  induction n generalizing a b with
  | zero => cases h
  | succ n ih =>
    rw [versionCmp_succ] at h
    split_ifs at h with h1 h2 h3 h4 <;> try cases h
    · simp [h1.1, h1.2, Orders, Plain]
    · exact ⟨.inl ⟨⟨0, by simp, h2⟩, rfl⟩, by simp⟩
    · exact ⟨.inr (.inl ⟨⟨0, by simp, h3⟩, rfl⟩), by simp⟩
    · refine ⟨.cons (by omega) (.inr (.inr ⟨?_, rfl⟩)), fun _ => ?_⟩
      · simp [component, h4.1, h4.2]
      · rw [← plain_next (s := a), ← plain_next (s := b), h4.1, h4.2]
        simp [Plain]
    obtain ⟨ho, hp⟩ := ih h
    exact ⟨.cons (by omega) ho, fun hr => (hp hr).imp plain_next.mp plain_next.mp⟩

lemma versionCmp_isSome_of_ne {k : ℕ} (h : component a k ≠ component b k) :
    (versionCmp (k + 1) a b).isSome := by
  have key : ∀ {a b : Bytes} {k : ℕ}, component a k ≠ component b k → ¬ (a = [] ∧ b = []) := by
    rintro a b k h ⟨rfl, rfl⟩
    exact h rfl
  induction k generalizing a b with
  | zero =>
    rw [versionCmp_succ, if_neg (key h)]
    split_ifs
    · rfl
    · rfl
    all_goals omega
  | succ k ih =>
    rw [versionCmp_succ, if_neg (key h), if_neg (key (k := k) h)]
    split_ifs
    · rfl
    · rfl
    · exact ih h

lemma versionCmp_isSome_of_plain (ha : Plain a) (hb : Plain b)
    (h : a.length + b.length < n) : (versionCmp n a b).isSome := by
  induction n generalizing a b with
  | zero => simp at h
  | succ n ih =>
    rw [versionCmp_succ]
    split_ifs with h1
    any_goals rfl
    refine ih (plain_next.mpr ha) (plain_next.mpr hb) ?_
    have hla := (next_suffix a).length_le
    have hlb := (next_suffix b).length_le
    rcases not_and_or.mp h1 with ha0 | hb0
    · have := length_next ha ha0
      omega
    · have := length_next hb hb0
      omega

lemma returns_iff : Returns a b r ↔
      Orders r (component a) (component b) ∧ (r = 0 → Plain a ∧ Plain b) := by
  refine ⟨fun ⟨_, h⟩ => orders_of_versionCmp h, fun ⟨ho, hp⟩ => ?_⟩
  have hex : ∃ n, (versionCmp n a b).isSome := by
    by_cases hr : r = 0
    · exact ⟨_, versionCmp_isSome_of_plain (hp hr).1 (hp hr).2 (Nat.lt_succ_self _)⟩
    obtain ⟨k, hk⟩ := Function.ne_iff.mp (mt ho.eq_zero_iff.mpr hr)
    exact ⟨k + 1, versionCmp_isSome_of_ne hk⟩
  obtain ⟨n, hn⟩ := hex
  obtain ⟨r', hr'⟩ := Option.isSome_iff_exists.mp hn
  exact ⟨n, (orders_of_versionCmp hr').1.unique ho ▸ hr'⟩

/-! ## The fields -/

/-- The fields between the dots of the longest prefix of digits and dots. -/
def fields (s : Bytes) : List Bytes := (s.takeWhile fun c => isDigit c || c == 46).splitOn 46

def push (v : ℕ) (c : UInt8) : ℕ := (v * 10 + (c.toNat - 48)) % 2 ^ 64

/-- The number in the field `k` modulo `2 ^ 64`, and `0` where there is none. -/
def field (s : Bytes) (k : ℕ) : ℕ := ((fields s).getD k []).foldl push 0

lemma readNumber_fst (v : ℕ) (s : Bytes) : (readNumber v s).1 = (s.takeWhile isDigit).foldl push v := by
  induction s generalizing v with
  | nil => rfl
  | cons c s ih => by_cases hc : isDigit c <;> simp [readNumber, hc, ih, push]

lemma fields_cons (s : Bytes) : ∃ l, fields s = s.takeWhile isDigit :: l ∧
    ∀ k, field (next s) k = (l.getD k []).foldl push 0 := by
  induction s with
  | nil => exact ⟨[], rfl, fun k => by cases k <;> rfl⟩
  | cons c s ih =>
    by_cases hc : isDigit c
    · obtain ⟨l, hl, hk⟩ := ih
      have h46 : c ≠ 46 := by
        rintro rfl
        cases hc
      rw [fields, splitOn] at hl
      refine ⟨l, ?_, fun k => (hk k).symm ▸ ?_⟩
      · simp [fields, splitOn, hc, splitOnP_cons_eq_if_modifyHead, h46, hl]
      · simp [next, readNumber_snd, hc]
    by_cases h46 : c = 46
    · subst h46
      exact ⟨fields s, by simp [fields, splitOn, splitOnP_cons_eq_if_modifyHead, hc], fun k => by simp [next, readNumber_snd, hc, skipDot, field]⟩
    · refine ⟨[], by simp [fields, hc, h46], fun k => ?_⟩
      cases k <;> simp [next, readNumber_snd, hc, h46, skipDot, field, fields]

lemma component_eq_field (s : Bytes) : component s = field s := by
  funext k
  induction k generalizing s with
  | zero =>
    obtain ⟨l, hl, -⟩ := fields_cons s
    rw [component, readNumber_fst, field, hl, getD_cons_zero]
  | succ k ih =>
    obtain ⟨l, hl, hnext⟩ := fields_cons s
    rw [component, ih, hnext, field, hl, getD_cons_succ]

/-! ## Dotted numbers -/

/-- The string is the decimal number `n`, which fits into 64 bits. -/
def Number (d : Bytes) (n : ℕ) : Prop := decimal d = some n ∧ n < 2 ^ 64

def dotted (ds : List Bytes) : Bytes := [46].intercalate ds

lemma foldl_push {v : ℕ} (h : decimalFrom d v = some n) : d.foldl push (v % 2 ^ 64) = n % 2 ^ 64 := by
  induction d generalizing v with
  | nil =>
    cases h
    rfl
  | cons c d ih =>
    simp only [decimalFrom] at h
    split_ifs at h with hc
    rw [foldl_cons, push, ← ih h]
    congr 1
    omega

lemma Number.digits (h : Number d n) : ∀ c ∈ d, isDigit c = true :=
  (decimalFrom_eq_some (decimalFrom_of_decimal h.1).2).2

lemma plain_dotted (h : List.Forall₂ Number ds ns) : Plain (dotted ds) := by
  induction h with
  | nil => simp [dotted, Plain]
  | @cons d n ds ns hd hds ih =>
    cases ds with
    | nil => exact fun c hc => .inl (hd.digits c (by simpa [dotted] using hc))
    | cons e ds =>
      intro c hc
      simp only [dotted, intercalate_cons_cons, mem_append, mem_singleton] at hc
      rcases hc with (hc | hc) | hc
      · exact .inl (hd.digits c hc)
      · exact .inr hc
      · exact ih c hc

lemma fields_dotted (h : List.Forall₂ Number ds ns) (h0 : ds ≠ []) : fields (dotted ds) = ds := by
  have hplain := plain_dotted h
  have hdot : ∀ d ∈ ds, 46 ∉ d := by
    clear h0 hplain
    induction h with
    | nil => simp
    | cons hd _ ih => exact forall_mem_cons.mpr ⟨fun h => absurd (hd.digits 46 h) (by decide), ih⟩
  rw [fields, takeWhile_eq_self_iff.mpr fun c hc => by simpa using hplain c hc]
  exact splitOn_intercalate 46 hdot h0

lemma field_dotted (h : List.Forall₂ Number ds ns) : field (dotted ds) = fun k => ns.getD k 0 := by
  have hval : ∀ k, (ds.getD k []).foldl push 0 = ns.getD k 0 := by
    induction h with
    | nil => exact fun _ => rfl
    | cons hd _ ih =>
      rintro (_ | k)
      · exact (foldl_push (decimalFrom_of_decimal hd.1).2).trans (Nat.mod_eq_of_lt hd.2)
      · exact ih k
  funext k
  rw [← hval]
  cases h with
  | nil => cases k <;> rfl
  | cons hd h => rw [field, fields_dotted (.cons hd h) (cons_ne_nil _ _)]

/-- **Version comparison.** The loop ends exactly for strings whose fields differ and for strings
of digits and dots. Its results are antisymmetric and transitive, and on dotted numbers they are the
lexicographic comparison of the numbers. -/
theorem versionCmp_orders (a b : Bytes) : ((∃ r, Returns a b r) ↔ field a ≠ field b ∨ Plain a ∧ Plain b) ∧
    (∀ r, Returns a b r → Returns b a (-r)) ∧
    (∀ c r r', Returns a b r → Returns b c r' → r ≤ 0 → r' ≤ 0 →
      ∃ t ≤ 0, Returns a c t ∧ (t = 0 → r = 0 ∧ r' = 0)) ∧
    ∀ ds es ns ms, List.Forall₂ Number ds ns → List.Forall₂ Number es ms → a = dotted ds →
      b = dotted es → ∃ r, Returns a b r ∧ Orders r (fun k => ns.getD k 0) (fun k => ms.getD k 0) := by
  simp only [returns_iff, component_eq_field]
  refine ⟨⟨?_, fun h => ?_⟩, fun r h => ?_, fun c r r' h h' hr hr' => ?_, fun ds es ns ms hd he ha hb => ?_⟩
  · rintro ⟨r, ho, hp⟩
    by_cases hr : r = 0
    · exact .inr (hp hr)
    · exact .inl (mt ho.eq_zero_iff.mpr hr)
  · obtain ⟨r, ho⟩ := exists_orders (field a) (field b)
    exact ⟨r, ho, fun hr => h.resolve_left (not_not_intro (ho.eq_zero_iff.mp hr))⟩
  · exact ⟨h.1.neg, fun hr => (h.2 (by simpa using hr)).symm⟩
  · obtain ⟨t, ht⟩ := exists_orders (field a) (field c)
    have hab := h.1.nonpos_iff.mp hr
    have hbc := h'.1.nonpos_iff.mp hr'
    have h0 : t = 0 → r = 0 ∧ r' = 0 := by
      intro ht0
      have hac := ht.eq_zero_iff.mp ht0
      have hba : toLex (field b) ≤ toLex (field a) := hac ▸ hbc
      have hcb : toLex (field c) ≤ toLex (field b) := hac ▸ hab
      exact ⟨h.1.eq_zero_iff.mpr (toLex_inj.mp (hab.antisymm hba)),
        h'.1.eq_zero_iff.mpr (toLex_inj.mp (hbc.antisymm hcb))⟩
    exact ⟨t, ht.nonpos_iff.mpr (hab.trans hbc), ⟨ht, fun ht0 => ⟨(h.2 (h0 ht0).1).1, (h'.2 (h0 ht0).2).2⟩⟩, h0⟩
  obtain ⟨r, ho⟩ := exists_orders (fun k => ns.getD k 0) (fun k => ms.getD k 0)
  rw [ha, hb, field_dotted hd, field_dotted he]
  exact ⟨r, ⟨ho, fun _ => ⟨plain_dotted hd, plain_dotted he⟩⟩, ho⟩

theorem versionCmp_never_returns : ¬ ∃ r, Returns (str "x") (str "x") r := by
  rintro ⟨r, h⟩
  obtain ⟨ho, hp⟩ := returns_iff.mp h
  have := (hp (ho.eq_zero_iff.mpr rfl)).1 120 (by decide)
  revert this
  decide

end Obelisk.Opkg
