import Obelisk.Lib.Text

/-!
# Member lists of groups

`ob_grdb_add_member` and `ob_grdb_remove_member` of `userland/lib/passwd_db.c` on the member list of
the group at a valid index: the text in an array of 512 bytes, before its `NUL`.
-/

namespace Obelisk.Group

open KLib List

variable {u : Bytes} {ts : List Bytes}

def grMembMax : ℕ := 512

def isLetter (c : UInt8) : Bool := 97 ≤ c && c ≤ 122 || 65 ≤ c && c ≤ 90

def obNameValid : Bytes → Bool
  | [] => false
  | c :: s =>
    decide (s.length + 1 < 32) && (isLetter c || c == 95) &&
      s.all fun c => isLetter c || isDigit c || c == 95 || c == 45 || c == 46

def scan : ℕ → Bytes → List Bytes
  | 0, _ => []
  | _ + 1, [] => []
  | n + 1, c :: p =>
    (c :: p).takeWhile (· != 44) :: match (c :: p).dropWhile (· != 44) with
      | [] => []
      | _ :: rest => scan n rest

def tokens (mem : Bytes) : List Bytes := scan mem.length mem

/-- The end copies with `strncpy` into what is left of the array. -/
def addMember (mem user : Bytes) : ℤ × Bytes :=
  if user ∈ tokens mem then (0, mem)
  else if mem = [] then (0, user.take (grMembMax - 1))
  else if grMembMax ≤ mem.length + 2 then (-1, mem)
  else (0, mem ++ 44 :: user.take (grMembMax - (mem.length + 1) - 1))

def removeStep (user : Bytes) (x : Bytes × Bool) (token : Bytes) : Bytes × Bool :=
  if token = user then x
  else
    let out := if !x.2 && x.1.length + 1 < grMembMax then x.1 ++ [44] else x.1
    (if out.length + token.length < grMembMax then out ++ token else out, false)

def removeMember (mem user : Bytes) : Bytes :=
  ((tokens mem).foldl (removeStep user) ([], true)).1.take (grMembMax - 1)

/-! ## Lists of names -/

def join : List Bytes → Bytes
  | [] => []
  | t :: ts => t ++ ts.flatMap (44 :: ·)

def IsToken (t : Bytes) : Prop := t ≠ [] ∧ 44 ∉ t

instance (t : Bytes) : Decidable (IsToken t) := inferInstanceAs (Decidable (_ ∧ _))

lemma isToken_of_valid (h : obNameValid u = true) : IsToken u ∧ u.length < 32 := by
  cases u with
  | nil => cases h
  | cons c s =>
    simp only [obNameValid, Bool.and_eq_true, decide_eq_true_eq, all_eq_true] at h
    refine ⟨⟨by simp, fun hm => ?_⟩, h.1.1⟩
    rcases mem_cons.mp hm with rfl | hm
    · exact absurd h.1.2 (by decide)
    · exact absurd (h.2 44 hm) (by decide)

lemma scan_join (h : ∀ t ∈ ts, IsToken t) {n : ℕ} (hn : (join ts).length ≤ n) :
    scan n (join ts) = ts := by
  induction ts generalizing n with
  | nil => cases n <;> rfl
  | cons t ts ih =>
    obtain ⟨h0, hc⟩ := h t (by simp)
    have hall : ∀ c ∈ t, (c != 44) = true := fun c hm => by
      simpa using ne_of_mem_of_not_mem hm hc
    cases n with
    | zero => simp_all [join]
    | succ n =>
      have hscan : ∀ p, p ≠ [] → scan (n + 1) p = p.takeWhile (· != 44) :: match p.dropWhile (· != 44) with
          | [] => []
          | _ :: rest => scan n rest := by
        rintro (_ | ⟨c, p⟩) hp
        · exact absurd rfl hp
        · rfl
      rw [hscan _ (by simp [join, h0])]
      cases ts with
      | nil => simp [join, takeWhile_eq_self_iff.mpr hall, dropWhile_eq_nil_iff.mpr hall]
      | cons e ts =>
        have hj : join (t :: e :: ts) = t ++ 44 :: join (e :: ts) := by simp [join]
        rw [hj, takeWhile_append_of_pos hall, dropWhile_append_of_pos hall]
        rw [hj] at hn
        simp only [length_append, length_cons] at hn
        simpa using ih (fun t ht => h t (mem_cons_of_mem _ ht)) (by omega)

lemma tokens_join (h : ∀ t ∈ ts, IsToken t) : tokens (join ts) = ts :=
  scan_join h le_rfl

lemma join_concat (h : ts ≠ []) (u : Bytes) : join (ts ++ [u]) = join ts ++ 44 :: u := by
  cases ts with
  | nil => exact absurd rfl h
  | cons t ts => simp [join]

lemma length_join_le (ts : List Bytes) : (join ts).length ≤ (ts.flatMap (44 :: ·)).length := by
  cases ts <;> simp [join]

/-! ## Removing a name -/

lemma foldl_removeStep (u : Bytes) (ts : List Bytes) (out : Bytes)
    (h : out.length + (ts.flatMap (44 :: ·)).length < grMembMax) :
    ts.foldl (removeStep u) (out, false) = (out ++ (ts.filter (· ≠ u)).flatMap (44 :: ·), false) := by
  induction ts generalizing out with
  | nil => simp
  | cons t ts ih =>
    simp only [flatMap_cons, length_append, length_cons] at h
    rw [foldl_cons]
    by_cases ht : t = u
    · rw [removeStep, if_pos ht, ih out (by omega)]
      simp [ht]
    have hs : removeStep u (out, false) t = (out ++ 44 :: t, false) := by
      have h1 : out.length + 1 < grMembMax := by omega
      have h2 : out.length + 1 + t.length < grMembMax := by omega
      simp [removeStep, ht, h1, h2]
    rw [hs, ih _ (by simp only [length_append, length_cons]; omega)]
    simp [ht]

lemma length_filter_flatMap_le (u : Bytes) (ts : List Bytes) :
    ((ts.filter (· ≠ u)).flatMap (44 :: ·)).length ≤ (ts.flatMap (44 :: ·)).length := by
  induction ts with
  | nil => simp
  | cons t ts ih =>
    by_cases ht : t = u
    · rw [filter_cons_of_neg (by simp [ht]), flatMap_cons, length_append]
      omega
    rw [filter_cons_of_pos (by simp [ht]), flatMap_cons, flatMap_cons, length_append, length_append]
    omega

lemma foldl_removeStep_join (h : (join ts).length < grMembMax) :
    (ts.foldl (removeStep u) ([], true)).1 = join (ts.filter (· ≠ u)) ∧
      (join (ts.filter (· ≠ u))).length ≤ (join ts).length := by
  induction ts with
  | nil => simp [join]
  | cons t ts ih =>
    have hle := length_join_le ts
    have hj : (join (t :: ts)).length = t.length + (ts.flatMap (44 :: ·)).length := by simp [join]
    rw [hj] at h ⊢
    rw [foldl_cons]
    by_cases ht : t = u
    · obtain ⟨h1, h2⟩ := ih (by omega)
      rw [removeStep, if_pos ht, h1, filter_cons_of_neg (by simp [ht])]
      exact ⟨rfl, by omega⟩
    have hs : removeStep u ([], true) t = (t, false) := by
      simp [removeStep, ht, show t.length < grMembMax by omega]
    rw [hs, foldl_removeStep u ts t (by omega), filter_cons_of_pos (by simp [ht])]
    have := length_filter_flatMap_le u ts
    exact ⟨rfl, by rw [join, length_append]; omega⟩

lemma removeMember_join (h : ∀ t ∈ ts, IsToken t)
    (hlen : (join ts).length < grMembMax) : removeMember (join ts) u = join (ts.filter (· ≠ u)) := by
  obtain ⟨heq, hle⟩ := foldl_removeStep_join (u := u) hlen
  rw [removeMember, tokens_join h, heq, take_of_length_le (by omega)]

/-! ## The two calls -/

def ActsAsSet (ts : List Bytes) (u : Bytes) : Prop :=
  ((addMember (join ts) u).1 = 0 → tokens (addMember (join ts) u).2 = if u ∈ ts then ts else ts ++ [u]) ∧
  ((addMember (join ts) u).1 = -1 → (addMember (join ts) u).2 = join ts) ∧
  tokens (removeMember (join ts) u) = ts.filter (· ≠ u)

instance (ts : List Bytes) (u : Bytes) : Decidable (ActsAsSet ts u) :=
  inferInstanceAs (Decidable (_ ∧ _ ∧ _))

/-- **Member lists.** A valid name is added and removed as in a set, unless there is room for the comma
and a part of the name only, which is then cut off. -/
theorem members_actAsSet_iff (ts : List Bytes) (u : Bytes) (hts : ∀ t ∈ ts, IsToken t)
    (hlen : (join ts).length < grMembMax) (hu : obNameValid u = true) :
    ActsAsSet ts u ↔
      u ∈ ts ∨ ts = [] ∨ grMembMax ≤ (join ts).length + 2 ∨ (join ts).length + u.length + 1 < grMembMax := by
  obtain ⟨htok, hu32⟩ := isToken_of_valid hu
  have hrem : tokens (removeMember (join ts) u) = ts.filter (· ≠ u) := by
    rw [removeMember_join hts hlen, tokens_join fun t ht => hts t (mem_of_mem_filter ht)]
  have hmem : (u ∈ tokens (join ts)) = (u ∈ ts) := by rw [tokens_join hts]
  have hnil : join ts = [] ↔ ts = [] := by
    cases ts with
    | nil => simp [join]
    | cons t ts => simp [join, (hts t (by simp)).1]
  unfold ActsAsSet addMember
  simp only [hmem, hnil]
  by_cases hin : u ∈ ts
  · simp [hin, tokens_join hts, hrem]
  by_cases h0 : ts = []
  · have hj : u.take (grMembMax - 1) = join [u] := by
      simp only [join, flatMap_nil, append_nil]
      exact take_of_length_le (by unfold grMembMax; omega)
    have ht : tokens (join [u]) = [u] := tokens_join (by simpa using htok)
    simp [h0, hj, ht]
    simpa [h0] using hrem
  by_cases hfull : grMembMax ≤ (join ts).length + 2
  · simp [hin, h0, hfull, hrem]
  -- a part of the name has room, so that a new token is there in any case
  have htake : ∀ k, 0 < k → tokens (join ts ++ 44 :: u.take k) = ts ++ [u.take k] := by
    intro k hk
    rw [← join_concat h0]
    refine tokens_join fun t ht => ?_
    rcases mem_append.mp ht with ht | ht
    · exact hts t ht
    rw [mem_singleton.mp ht]
    exact ⟨by simp [htok.1, hk.ne'], fun hm => htok.2 (mem_of_mem_take hm)⟩
  have hiff : u.take (grMembMax - ((join ts).length + 1) - 1) = u ↔
      (join ts).length + u.length + 1 < grMembMax := by
    refine ⟨fun h => ?_, fun h => take_of_length_le (by omega)⟩
    have := congrArg length h
    rw [length_take] at this
    omega
  simp [hin, h0, hfull, hrem, htake _ (by omega : 0 < grMembMax - ((join ts).length + 1) - 1), hiff]

def longList : List Bytes :=
  (range 17).map fun i => replicate 28 97 ++ [UInt8.ofNat (97 + i)]

theorem name_cut_off : (∀ t ∈ longList, IsToken t) ∧ (join longList).length < grMembMax ∧
    obNameValid (str "bob") = true ∧ ¬ ActsAsSet longList (str "bob") := by
  decide +kernel

theorem members_actAsSet_small : ActsAsSet [str "al", str "bo"] (str "al") :=
  (members_actAsSet_iff [str "al", str "bo"] (str "al") (by decide) (by decide) (by decide)).mpr (.inl (by decide))

end Obelisk.Group
