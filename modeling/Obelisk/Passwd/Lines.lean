import Obelisk.Lib.Text
import Obelisk.Lib.Word

/-!
# Lines of the account file

`ob_passwd_parse_line` of `userland/lib/passwd_db.c`. A line is what stands before its `NUL`.
-/

namespace Obelisk.Passwd

open KLib List Option

variable {d f : Bytes} {e : PwEntry} {u : ℕ}

/-- `ob_pw_entry_t`; a string is what its array holds before the `NUL`. -/
structure PwEntry where
  name : Bytes
  pass : Bytes
  uid : ℕ
  gid : ℕ
  gecos : Bytes
  home : Bytes
  shell : Bytes
  deriving DecidableEq

def maxId : ℕ := 2000000000

/-- `split_col`: what follows the colon number `which`. -/
def splitCol : ℕ → Bytes → Option Bytes
  | 0, s => some s
  | which + 1, s =>
    match s.dropWhile (· != 58) with
    | [] => none
    | _ :: t => splitCol which t

/-- The text before the next colon. -/
def column (s : Bytes) : Bytes := s.takeWhile (· != 58)

/-- The loop over the digits of an id, with its 32-bit accumulator. -/
def parseId : Bytes → ℕ → Option ℕ
  | [], v => some v
  | c :: s, v =>
    if isDigit c then
      let v := u32 (v * 10 + (c.toNat - 48))
      if maxId < v then none else parseId s v
    else none

/-- The loop over spaces and tabs. -/
def skipBlanks (s : Bytes) : Bytes := s.dropWhile fun c => c = 32 || c = 9

def obPasswdParseLine (line : Bytes) : Option PwEntry :=
  let line := skipBlanks line
  if line.head? = some 35 ∨ line = [] then none
  else do
    let f1 ← splitCol 1 line
    let f2 ← splitCol 2 line
    let f3 ← splitCol 3 line
    let f4 ← splitCol 4 line
    let f5 ← splitCol 5 line
    let f6 ← splitCol 6 line
    let name := (column line).take 31
    if column f2 = [] ∨ column f3 = [] then none
    else do
      let uid ← parseId (column f2) 0
      let gid ← parseId (column f3) 0
      if ∃ c ∈ name, c = 58 ∨ c = 10 then none
      else return {
        name := name
        pass := (column f1).take 159
        uid := uid
        gid := gid
        gecos := (column f4).take 63
        home := (column f5).take 127
        shell := (f6.takeWhile fun c => c ≠ 10 ∧ c ≠ 13).take 127 }

/-! ## Seven fields -/

/-- A line of `/etc/passwd`; only the last field may hold a colon. -/
structure Fields where
  name : Bytes
  pass : Bytes
  uid : Bytes
  gid : Bytes
  gecos : Bytes
  home : Bytes
  shell : Bytes
  free : ∀ f ∈ [name, pass, uid, gid, gecos, home], 58 ∉ f

namespace Fields

def line (x : Fields) : Bytes :=
  x.name ++ 58 :: (x.pass ++ 58 :: (x.uid ++ 58 :: (x.gid ++ 58 :: (x.gecos ++ 58 :: (x.home ++ 58 :: x.shell)))))

def entry (x : Fields) (uid gid : ℕ) : PwEntry where
  name := (skipBlanks x.name).take 31
  pass := x.pass.take 159
  uid := uid
  gid := gid
  gecos := x.gecos.take 63
  home := x.home.take 127
  shell := (x.shell.takeWhile fun c => c ≠ 10 ∧ c ≠ 13).take 127

/-- No comment, and no newline in the part of the name that is kept. -/
def Acceptable (x : Fields) : Prop :=
  (skipBlanks x.name).head? ≠ some 35 ∧ 10 ∉ (skipBlanks x.name).take 31

end Fields

lemma splitCol_zero (s : Bytes) : splitCol 0 s = some s := rfl

lemma splitCol_succ_append (h : 58 ∉ f) (k : ℕ) (s : Bytes) :
    splitCol (k + 1) (f ++ 58 :: s) = splitCol k s := by
  rw [splitCol, dropWhile_append_of_pos]
  · simp
  intro c hc
  simpa using ne_of_mem_of_not_mem hc h

lemma column_append (h : 58 ∉ f) (s : Bytes) : column (f ++ 58 :: s) = f := by
  rw [column, takeWhile_append_of_pos]
  · simp
  intro c hc
  simpa using ne_of_mem_of_not_mem hc h

lemma exists_of_splitCol {k : ℕ} {s t : Bytes} (h : splitCol (k + 1) s = some t) :
    ∃ f s', 58 ∉ f ∧ s = f ++ 58 :: s' ∧ splitCol k s' = some t := by
  induction s with
  | nil => simp [splitCol] at h
  | cons c s ih =>
    by_cases hc : c = 58
    · exact ⟨[], s, by simp, by simp [hc], by simpa [splitCol, hc] using h⟩
    have hs : splitCol (k + 1) (c :: s) = splitCol (k + 1) s := by simp [splitCol, hc]
    obtain ⟨f, s', hf, rfl, ht⟩ := ih (hs ▸ h)
    exact ⟨c :: f, s', by simp [hf, Ne.symm hc], rfl, ht⟩

lemma skipBlanks_append (f s : Bytes) : skipBlanks (f ++ 58 :: s) = skipBlanks f ++ 58 :: s := by
  induction f with
  | nil => simp [skipBlanks]
  | cons c f ih =>
    simp only [skipBlanks, cons_append, dropWhile_cons] at ih ⊢
    split_ifs
    · exact ih
    · rfl

lemma mem_skipBlanks {c : UInt8} (h : c ∈ skipBlanks f) : c ∈ f :=
  (dropWhile_sublist _).subset h

lemma parseLine_eq_some {x : Fields} : obPasswdParseLine x.line = some e ↔ x.Acceptable ∧ x.uid ≠ [] ∧ x.gid ≠ [] ∧
      ∃ uid gid, parseId x.uid 0 = some uid ∧ parseId x.gid 0 = some gid ∧ x.entry uid gid = e := by
  obtain ⟨h0, h1, h2, h3, h4, h5⟩ : 58 ∉ x.name ∧ 58 ∉ x.pass ∧ 58 ∉ x.uid ∧ 58 ∉ x.gid ∧
      58 ∉ x.gecos ∧ 58 ∉ x.home := by simpa using x.free
  have hn : 58 ∉ skipBlanks x.name := mt mem_skipBlanks h0
  have hhead : ∀ s, (skipBlanks x.name ++ 58 :: s).head? = some 35 ↔
      (skipBlanks x.name).head? = some 35 := by
    intro s
    cases skipBlanks x.name <;> simp
  have hname : (∃ c ∈ (skipBlanks x.name).take 31, c = 58 ∨ c = 10) ↔
      10 ∈ (skipBlanks x.name).take 31 := by
    refine ⟨?_, fun h => ⟨10, h, .inr rfl⟩⟩
    rintro ⟨c, hc, rfl | rfl⟩
    · exact absurd (mem_of_mem_take hc) hn
    · exact hc
  simp only [obPasswdParseLine, Fields.line, skipBlanks_append, hhead, splitCol_succ_append, hn, h1, h2,
    h3, h4, h5, splitCol_zero, column_append, not_false_eq_true, hname, Fields.Acceptable,
    bind_eq_bind, bind_some]
  by_cases hc : (skipBlanks x.name).head? = some 35
  · simp [hc]
  by_cases hu : x.uid = []
  · simp [hc, hu]
  by_cases hg : x.gid = []
  · simp [hc, hg]
  by_cases ht : 10 ∈ (skipBlanks x.name).take 31
  · simp [hc, hu, hg, ht]
  · simp [hc, hu, hg, ht, bind_eq_some_iff, Fields.entry]

lemma exists_fields_of_parseLine {line : Bytes} (h : obPasswdParseLine line = some e) :
    ∃ x : Fields, x.line = line := by
  obtain ⟨_, ht⟩ : ∃ t, splitCol 6 (skipBlanks line) = some t := by
    simp only [obPasswdParseLine] at h
    split at h
    · cases h
    simp only [bind_eq_bind, bind_eq_some_iff] at h
    obtain ⟨_, -, _, -, _, -, _, -, _, -, t, ht, -⟩ := h
    exact ⟨t, ht⟩
  obtain ⟨f0, s1, h0, hs, ht1⟩ := exists_of_splitCol ht
  obtain ⟨f1, s2, h1, rfl, ht2⟩ := exists_of_splitCol ht1
  obtain ⟨f2, s3, h2, rfl, ht3⟩ := exists_of_splitCol ht2
  obtain ⟨f3, s4, h3, rfl, ht4⟩ := exists_of_splitCol ht3
  obtain ⟨f4, s5, h4, rfl, ht5⟩ := exists_of_splitCol ht4
  obtain ⟨f5, s6, h5, rfl, -⟩ := exists_of_splitCol ht5
  let blank : UInt8 → Bool := fun c => c = 32 || c = 9
  have hb : 58 ∉ line.takeWhile blank := fun hm => by simpa [blank] using mem_takeWhile_imp hm
  refine ⟨⟨line.takeWhile blank ++ f0, f1, f2, f3, f4, f5, s6, by simp [*]⟩, ?_⟩
  rw [Fields.line, append_assoc, ← hs]
  exact takeWhile_append_dropWhile

/-! ## The ids -/

def InRange (d : Bytes) : Prop := ∃ n ≤ maxId, decimal d = some n

/-- The digits of an id that passes the checks: after no digit is the value modulo `2 ^ 32` too
large. -/
def Passes (d : Bytes) : Prop :=
  d ≠ [] ∧ ∀ p, p <+: d → p ≠ [] → ∃ n, decimal p = some n ∧ u32 n ≤ maxId

lemma parseId_eq_some {v : ℕ} : parseId d (u32 v) = some u ↔
      (∀ p, p <+: d → p ≠ [] → ∃ n, decimalFrom p v = some n ∧ u32 n ≤ maxId) ∧
        ∃ n, decimalFrom d v = some n ∧ u32 n = u := by
  induction d generalizing v with
  | nil => simp [parseId, decimalFrom]
  | cons c d ih =>
    have hmod : u32 (u32 v * 10 + (c.toNat - 48)) = u32 (v * 10 + (c.toNat - 48)) := by
      unfold u32
      omega
    by_cases hc : isDigit c
    · have hp : (∀ p, p <+: c :: d → p ≠ [] → ∃ n, decimalFrom p v = some n ∧ u32 n ≤ maxId) ↔
          u32 (v * 10 + (c.toNat - 48)) ≤ maxId ∧ ∀ p, p <+: d → p ≠ [] →
            ∃ n, decimalFrom p (v * 10 + (c.toNat - 48)) = some n ∧ u32 n ≤ maxId := by
        refine ⟨fun h => ⟨?_, fun p hp _ => ?_⟩, fun h p hp hne => ?_⟩
        · simpa [decimalFrom, hc] using h [c] (by simp) (by simp)
        · simpa [decimalFrom, hc] using h (c :: p) (by simpa using hp) (by simp)
        cases p with
        | nil => exact absurd rfl hne
        | cons b p =>
          obtain ⟨rfl, hpd⟩ := cons_prefix_cons.mp hp
          by_cases hp0 : p = []
          · simpa [decimalFrom, hc, hp0] using h.1
          · simpa [decimalFrom, hc] using h.2 p hpd hp0
      rw [hp, parseId, if_pos hc, hmod]
      by_cases hle : u32 (v * 10 + (c.toNat - 48)) ≤ maxId
      · simp [not_lt.mpr hle, hle, ih, decimalFrom, hc]
      · simp [not_le.mp hle]
    · simp [parseId, decimalFrom, hc]

lemma exists_parseId (hd : d ≠ []) :
    parseId d 0 = some u ↔ Passes d ∧ ∃ n, decimal d = some n ∧ u32 n = u := by
  rw [Passes, decimal_eq hd]
  refine (parseId_eq_some (v := 0)).trans ?_
  refine and_congr_left fun _ => ⟨fun h => ⟨hd, fun p hp hne => ?_⟩, fun h p hp hne => ?_⟩
  · rw [decimal_eq hne]; exact h p hp hne
  · rw [← decimal_eq hne]; exact h.2 p hp hne

lemma InRange.passes (h : InRange d) : Passes d := by
  obtain ⟨n, hn, hd⟩ := h
  obtain ⟨hne, hd⟩ := decimalFrom_of_decimal hd
  refine ⟨hne, fun p hp hp0 => ?_⟩
  obtain ⟨m, hm, hpm⟩ := decimalFrom_of_prefix hp hd
  exact ⟨m, by rw [decimal_eq hp0, hpm], (Nat.mod_le ..).trans (hm.trans hn)⟩

def ReadAs (d : Bytes) (u : ℕ) : Prop := decimal d = some u ∧ u ≤ maxId

/-- What is asked of a line: accepted ids are read exactly, and a proper line is accepted. -/
def IdsExact (x : Fields) : Prop :=
  (∀ e, obPasswdParseLine x.line = some e → ReadAs x.uid e.uid ∧ ReadAs x.gid e.gid) ∧
  (10 ∉ x.line → (skipBlanks x.line).head? ≠ some 35 → InRange x.uid → InRange x.gid →
    ∃ e, obPasswdParseLine x.line = some e)

lemma readAs_iff {n : ℕ} (h : decimal d = some n) : ReadAs d (u32 n) ↔ InRange d := by
  have hid : maxId < 2 ^ 32 := by decide
  simp only [ReadAs, InRange, h, Option.some.injEq]
  refine ⟨fun ⟨he, hle⟩ => ⟨n, he ▸ hle, rfl⟩, ?_⟩
  rintro ⟨m, hm, rfl⟩
  rw [u32, Nat.mod_eq_of_lt (by omega)]
  exact ⟨rfl, hm⟩

/-- **Ids of a line.** Every accepted line has seven fields. Its ids are read exactly, unless the value
of an id wraps around `2 ^ 32` without passing the bound after any digit. -/
theorem parseLine_idsExact_iff (line : Bytes) :
    (∀ e, obPasswdParseLine line = some e → ∃ x : Fields, x.line = line) ∧
    ∀ x : Fields, x.line = line → (IdsExact x ↔
      (x.Acceptable → Passes x.uid → Passes x.gid → InRange x.uid ∧ InRange x.gid)) := by
  refine ⟨fun e => exists_fields_of_parseLine, fun x _ => ⟨fun h ha hu hg => ?_, fun h => ⟨?_, ?_⟩⟩⟩
  · obtain ⟨n, hn, -⟩ := hu.2 _ prefix_rfl hu.1
    obtain ⟨m, hm, -⟩ := hg.2 _ prefix_rfl hg.1
    have := h.1 (x.entry (u32 n) (u32 m)) (parseLine_eq_some.mpr ⟨ha, hu.1, hg.1, _, _,
      (exists_parseId hu.1).mpr ⟨hu, n, hn, rfl⟩, (exists_parseId hg.1).mpr ⟨hg, m, hm, rfl⟩, rfl⟩)
    exact this.imp (readAs_iff hn).mp (readAs_iff hm).mp
  · intro e he
    obtain ⟨ha, hu0, hg0, u, g, hu, hg, rfl⟩ := parseLine_eq_some.mp he
    obtain ⟨hpu, n, hn, rfl⟩ := (exists_parseId hu0).mp hu
    obtain ⟨hpg, m, hm, rfl⟩ := (exists_parseId hg0).mp hg
    exact (h ha hpu hpg).imp (readAs_iff hn).mpr (readAs_iff hm).mpr
  intro hnl hc hu hg
  obtain ⟨n, hn, hd⟩ := hu
  obtain ⟨m, hm, hd'⟩ := hg
  have hu := InRange.passes ⟨n, hn, hd⟩
  have hg := InRange.passes ⟨m, hm, hd'⟩
  refine ⟨_, parseLine_eq_some.mpr ⟨⟨?_, fun h10 => hnl ?_⟩, hu.1, hg.1, _, _,
    (exists_parseId hu.1).mpr ⟨hu, n, hd, rfl⟩, (exists_parseId hg.1).mpr ⟨hg, m, hd', rfl⟩, rfl⟩⟩
  · rw [Fields.line, skipBlanks_append] at hc
    intro h35
    cases hs : skipBlanks x.name <;> simp_all
  · exact mem_append_left _ (mem_skipBlanks (mem_of_mem_take h10))

def wrappedLine : Fields :=
  ⟨str "a", str "x", str "4294967296", str "1", [], [], [], by decide⟩

theorem uid_wraps : obPasswdParseLine wrappedLine.line = some ⟨str "a", str "x", 0, 1, [], [], []⟩ ∧
      ¬ IdsExact wrappedLine := by
  have h : obPasswdParseLine wrappedLine.line = some ⟨str "a", str "x", 0, 1, [], [], []⟩ := by
    decide +kernel
  exact ⟨h, fun he => absurd (he.1 _ h).1.1 (by decide +kernel)⟩

end Obelisk.Passwd
