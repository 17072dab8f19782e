import Obelisk.Passwd.Lines

/-!
# Printing a line of the account file

`ob_passwd_format_line` of `userland/lib/passwd_db.c`, against `ob_passwd_parse_line`.
-/

namespace Obelisk.Passwd

open KLib List

variable {n v : ℕ} {p : Bytes}

def fmtTmp : ℕ → ℕ → Bytes
  | 0, _ => []
  | n + 1, v => if v = 0 then [] else .ofNat (48 + v % 10) :: fmtTmp n (v / 10)

def fmtDec (v cap : ℕ) : Bytes :=
  if cap < 2 then [] else if v = 0 then [48] else (fmtTmp 16 v).reverse.take (cap - 1)

def intOf (cap : ℕ) : ℤ := if u32 cap < 2 ^ 31 then u32 cap else u32 cap - 2 ^ 32

/-- A string is copied as long as `n < lim`; what follows it is written in any case. -/
def put (lim : ℤ) (out s : Bytes) (sep : UInt8) : Bytes :=
  out ++ s.take (lim - out.length).toNat ++ [sep]

def obPasswdFormatLine (e : PwEntry) (cap : ℕ) : Bytes :=
  let lim := intOf cap - 1
  let out := put lim [] e.name 58
  let out := put lim out e.pass 58
  let out := put lim out (fmtDec e.uid 16) 58
  let out := put lim out (fmtDec e.gid 16) 58
  let out := put lim out e.gecos 58
  let out := put lim out e.home 58
  put lim out e.shell 10

lemma decimalFrom_fmtTmp (h : v < 10 ^ n) : decimalFrom (fmtTmp n v).reverse 0 = some v := by
  induction n generalizing v with
  | zero => simp_all [fmtTmp, decimalFrom]
  | succ n ih =>
    rw [fmtTmp]
    split_ifs with hv
    · simp [decimalFrom, hv]
    have hd : (UInt8.ofNat (48 + v % 10)).toNat = 48 + v % 10 := by
      simp
      omega
    have hdig : isDigit (.ofNat (48 + v % 10)) = true := by
      simp only [isDigit, Bool.and_eq_true, decide_eq_true_eq, UInt8.le_iff_toNat_le, hd]
      exact ⟨le_self_add, by show _ ≤ 57; omega⟩
    rw [reverse_cons, decimalFrom_append, ih (by rw [pow_succ] at h; omega)]
    simp only [Option.bind_some, decimalFrom, hdig, if_true, hd]
    congr 1
    omega

lemma length_fmtTmp {k : ℕ} (h : v < 10 ^ k) (n : ℕ) : (fmtTmp n v).length ≤ k := by
  induction n generalizing k v with
  | zero => simp [fmtTmp]
  | succ n ih =>
    rw [fmtTmp]
    split_ifs with hv
    · simp
    cases k with
    | zero => omega
    | succ k => exact Nat.succ_le_succ (ih (by rw [pow_succ] at h; omega))

lemma decimal_fmtDec (h : v ≤ maxId) : decimal (fmtDec v 16) = some v := by
  unfold maxId at h
  by_cases hv : v = 0
  · subst hv
    decide
  have hl := length_fmtTmp (k := 15) (by omega : v < 10 ^ 15) 16
  have hd := decimalFrom_fmtTmp (n := 16) (by omega : v < 10 ^ 16)
  rw [fmtDec, if_neg (by omega), if_neg hv, take_of_length_le (by simpa using hl), decimal_eq, hd]
  intro h0
  rw [h0] at hd
  exact hv (Option.some.inj hd).symm

lemma eq_of_prefix_fmtDec (h : v ≤ maxId) (hp : p <+: fmtDec v 16)
    (hv : decimal p = some v) : p = fmtDec v 16 := by
  obtain ⟨hp0, hv⟩ := decimalFrom_of_decimal hv
  have hd := (decimalFrom_of_decimal (decimal_fmtDec h)).2
  obtain ⟨r, hr⟩ := hp
  rw [← hr] at hd ⊢
  rw [decimalFrom_append, hv, Option.bind_some] at hd
  cases r with
  | nil => simp
  | cons c r =>
    simp only [decimalFrom] at hd
    split_ifs at hd
    have := (decimalFrom_eq_some hd).1
    obtain rfl : v = 0 := by omega
    have := congrArg length hr
    have := length_pos_of_ne_nil hp0
    simp [fmtDec] at *
    omega

lemma eq_of_parseId (h : v ≤ maxId) (hp : p <+: fmtDec v 16) (hp0 : p ≠ [])
    (hv : parseId p 0 = some v) : p = fmtDec v 16 := by
  obtain ⟨-, n, hn, hnv⟩ := (exists_parseId hp0).mp hv
  obtain ⟨m, hm, hpm⟩ := decimalFrom_of_prefix hp (decimalFrom_of_decimal (decimal_fmtDec h)).2
  rw [decimal_eq hp0, hpm] at hn
  obtain rfl : m = n := Option.some.inj hn
  unfold maxId at h
  rw [u32_of_lt (by omega)] at hnv
  exact eq_of_prefix_fmtDec h hp (by rw [decimal_eq hp0, hpm, hnv])

lemma parseId_fmtDec (h : v ≤ maxId) : fmtDec v 16 ≠ [] ∧ parseId (fmtDec v 16) 0 = some v := by
  have hd := decimal_fmtDec h
  have h0 := (decimalFrom_of_decimal hd).1
  refine ⟨h0, (exists_parseId h0).mpr ⟨InRange.passes ⟨v, h, hd⟩, v, hd, u32_of_lt ?_⟩⟩
  unfold maxId at h
  omega

/-! ## Entries -/

/-- An entry whose strings fit into their arrays and can be told apart in a line. -/
structure Printable (e : PwEntry) : Prop where
  lengths : e.name.length < 32 ∧ e.pass.length < 160 ∧ e.gecos.length < 64 ∧ e.home.length < 128 ∧
    e.shell.length < 128
  clean : ∀ f ∈ [e.name, e.pass, e.gecos, e.home, e.shell], 58 ∉ f ∧ 10 ∉ f ∧ 13 ∉ f
  first : ∃ c s, e.name = c :: s ∧ c ≠ 32 ∧ c ≠ 9 ∧ c ≠ 35
  ids : e.uid ≤ maxId ∧ e.gid ≤ maxId

def strings (e : PwEntry) : List Bytes :=
  [e.name, e.pass, fmtDec e.uid 16, fmtDec e.gid 16, e.gecos, e.home, e.shell]

def Fields.strings (x : Fields) : List Bytes :=
  [x.name, x.pass, x.uid, x.gid, x.gecos, x.home, x.shell]

lemma eq_of_take {x f y : Bytes} (hp : x <+: f) (hy : y.Sublist x) (h : y.take n = f) : x = f :=
  hp.eq_of_length_le (h ▸ ((take_sublist n y).trans hy).length_le)

lemma parseLine_prefixes {e : PwEntry} (he : Printable e) {x : Fields}
    (hx : List.Forall₂ (· <+: ·) x.strings (strings e)) :
    obPasswdParseLine x.line = some e ↔ x.strings = strings e := by
  simp only [Fields.strings, strings, forall₂_cons, forall₂_nil_left_iff, and_true] at hx
  obtain ⟨p0, p1, p2, p3, p4, p5, p6⟩ := hx
  rw [parseLine_eq_some]
  constructor
  · rintro ⟨-, hu0, hg0, uid, gid, hu, hg, hent⟩
    have huid : uid = e.uid := congrArg PwEntry.uid hent
    have hgid : gid = e.gid := congrArg PwEntry.gid hent
    simp only [Fields.strings, strings]
    rw [eq_of_take p0 (dropWhile_sublist _) (congrArg PwEntry.name hent),
      eq_of_take p1 (.refl _) (congrArg PwEntry.pass hent),
      eq_of_parseId he.ids.1 p2 hu0 (huid ▸ hu), eq_of_parseId he.ids.2 p3 hg0 (hgid ▸ hg),
      eq_of_take p4 (.refl _) (congrArg PwEntry.gecos hent),
      eq_of_take p5 (.refl _) (congrArg PwEntry.home hent),
      eq_of_take p6 (takeWhile_sublist _) (congrArg PwEntry.shell hent)]
  intro h
  simp only [Fields.strings, strings, cons.injEq, and_true] at h
  obtain ⟨h0, h1, h2, h3, h4, h5, h6⟩ := h
  obtain ⟨l0, l1, l4, l5, l6⟩ := he.lengths
  obtain ⟨c, s, hn, hc⟩ := he.first
  have hskip : skipBlanks e.name = e.name := by simp [hn, skipBlanks, hc]
  have hshell : (e.shell.takeWhile fun c => c ≠ 10 ∧ c ≠ 13) = e.shell := by
    refine takeWhile_eq_self_iff.mpr fun c hm => ?_
    have hcl := (he.clean e.shell (by simp)).2
    simpa using ⟨ne_of_mem_of_not_mem hm hcl.1, ne_of_mem_of_not_mem hm hcl.2⟩
  obtain ⟨hu0, hu⟩ := parseId_fmtDec he.ids.1
  obtain ⟨hg0, hg⟩ := parseId_fmtDec he.ids.2
  refine ⟨?_, h2 ▸ hu0, h3 ▸ hg0, e.uid, e.gid, h2 ▸ hu, h3 ▸ hg, ?_⟩
  · rw [Fields.Acceptable, h0, hskip]
    exact ⟨by simp [hn, hc], fun hm => (he.clean e.name (by simp)).2.1 (mem_of_mem_take hm)⟩
  simp only [Fields.entry, h0, h1, h4, h5, h6, hskip, hshell]
  rw [take_of_length_le (by omega), take_of_length_le (by omega),
    take_of_length_le (by omega), take_of_length_le (by omega),
    take_of_length_le (by omega)]

/-- No string is cut off: each one that is not empty ends at `lim` or before. -/
def Uncut (lim : ℤ) : ℕ → List Bytes → Prop
  | _, [] => True
  | start, f :: fs => (f = [] ∨ ((start + f.length : ℕ) : ℤ) ≤ lim) ∧ Uncut lim (start + f.length + 1) fs

lemma put_spec (lim : ℤ) (out s : Bytes) (sep : UInt8) : ∃ g, g <+: s ∧ put lim out s sep = out ++ g ++ [sep] ∧
      (g = s ↔ s = [] ∨ ((out.length + s.length : ℕ) : ℤ) ≤ lim) := by
  refine ⟨_, take_prefix .., rfl, ?_⟩
  by_cases hs : s = []
  · simp [hs]
  have := length_pos_of_ne_nil hs
  refine ⟨fun h => .inr ?_, fun h => take_of_length_le ?_⟩
  · have := congrArg length h
    rw [length_take] at this
    omega
  have := h.resolve_left hs
  omega

lemma put_dropLast (lim : ℤ) (out s : Bytes) (sep sep' : UInt8) :
    (put lim out s sep).dropLast = (put lim out s sep').dropLast := by
  simp [put]

lemma foldl_put (lim : ℤ) (fs : List Bytes) (out : Bytes) : ∃ gs, List.Forall₂ (· <+: ·) gs fs ∧
      fs.foldl (fun out s => put lim out s 58) out = out ++ gs.flatMap (· ++ [58]) ∧
      (gs = fs ↔ Uncut lim out.length fs) := by
  induction fs generalizing out with
  | nil => exact ⟨[], .nil, by simp, by simp [Uncut]⟩
  | cons f fs ih =>
    obtain ⟨g, hg, he, hc⟩ := put_spec lim out f 58
    obtain ⟨gs, hgs, hes, hcs⟩ := ih (out ++ g ++ [58])
    refine ⟨g :: gs, .cons hg hgs, ?_, ?_⟩
    · rw [foldl_cons, he, hes]
      simp
    rw [cons.injEq, Uncut, ← hc]
    refine and_congr_right fun hgf => ?_
    rw [hcs, hgf, length_append, length_append, length_singleton]

lemma exists_seven {R : Bytes → Bytes → Prop} {gs : List Bytes} {f0 f1 f2 f3 f4 f5 f6 : Bytes}
    (h : List.Forall₂ R gs [f0, f1, f2, f3, f4, f5, f6]) :
    ∃ g0 g1 g2 g3 g4 g5 g6, gs = [g0, g1, g2, g3, g4, g5, g6] ∧ R g0 f0 ∧ R g1 f1 ∧ R g2 f2 ∧
      R g3 f3 ∧ R g4 f4 ∧ R g5 f5 ∧ R g6 f6 :=
  match gs, h with
  | [_, _, _, _, _, _, _], .cons p0 (.cons p1 (.cons p2 (.cons p3 (.cons p4 (.cons p5 (.cons p6 .nil)))))) =>
    ⟨_, _, _, _, _, _, _, rfl, p0, p1, p2, p3, p4, p5, p6⟩

lemma not_mem_fmtDec (h : v ≤ maxId) : 58 ∉ fmtDec v 16 := fun hm =>
  absurd ((decimalFrom_eq_some (decimalFrom_of_decimal (decimal_fmtDec h)).2).2 58 hm) (by decide)

/-- An entry that is printed into a buffer of `cap` bytes is read back exactly when no string is cut off
by the comparison with `(int)cap - 1`. -/
theorem format_roundTrips_iff (e : PwEntry) (cap : ℕ) (he : Printable e) :
    obPasswdParseLine (obPasswdFormatLine e cap).dropLast = some e ↔
      Uncut (intOf cap - 1) 0 (strings e) := by
  have hform : (obPasswdFormatLine e cap).dropLast =
      ((strings e).foldl (fun out s => put (intOf cap - 1) out s 58) []).dropLast := put_dropLast ..
  obtain ⟨gs, hgs, heq, hcut⟩ := foldl_put (intOf cap - 1) (strings e) []
  rw [hform, heq]
  refine Iff.trans ?_ hcut
  have hcl := he.clean
  simp only [mem_cons, not_mem_nil, or_false, forall_eq_or_imp, forall_eq] at hcl
  obtain ⟨g0, g1, g2, g3, g4, g5, g6, rfl, p0, p1, p2, p3, p4, p5, -⟩ := exists_seven hgs
  have hfree : ∀ f ∈ [g0, g1, g2, g3, g4, g5], 58 ∉ f := by
    simp only [mem_cons, not_mem_nil, or_false, forall_eq_or_imp, forall_eq]
    exact ⟨fun h => hcl.1.1 (p0.subset h), fun h => hcl.2.1.1 (p1.subset h),
      fun h => not_mem_fmtDec he.ids.1 (p2.subset h), fun h => not_mem_fmtDec he.ids.2 (p3.subset h),
      fun h => hcl.2.2.1.1 (p4.subset h), fun h => hcl.2.2.2.1.1 (p5.subset h)⟩
  have hline : [] ++ [g0, g1, g2, g3, g4, g5, g6].flatMap (· ++ [58]) =
      Fields.line ⟨g0, g1, g2, g3, g4, g5, g6, hfree⟩ ++ [58] := by simp [Fields.line]
  rw [hline, dropLast_concat]
  exact parseLine_prefixes he hgs

lemma fmtDec_length (h : v ≤ maxId) : (fmtDec v 16).length ≤ 10 := by
  unfold maxId at h
  have hl := length_fmtTmp (k := 10) (by omega : v < 10 ^ 10) 16
  unfold fmtDec
  split_ifs <;> simp
  omega

/-- The longest line has 533 characters. -/
lemma uncut_strings {e : PwEntry} (he : Printable e) {lim : ℤ} (hlim : 599 ≤ lim) : Uncut lim 0 (strings e) := by
  obtain ⟨h1, h2, h3, h4, h5⟩ := he.lengths
  have hu := fmtDec_length he.ids.1
  have hg := fmtDec_length he.ids.2
  refine ⟨.inr ?_, .inr ?_, .inr ?_, .inr ?_, .inr ?_, .inr ?_, .inr ?_, trivial⟩ <;> omega

/-- **Round trip.** Every printable entry is read back from its line in a buffer of 600 bytes or more, up
to the `int` range. -/
theorem format_roundTrips (e : PwEntry) (cap : ℕ) (he : Printable e) (hcap : 600 ≤ cap) (hint : cap < 2 ^ 31) :
    obPasswdParseLine (obPasswdFormatLine e cap).dropLast = some e := by
  have hlim : intOf cap = cap := by
    have hu := u32_of_lt (show cap < 2 ^ 32 by omega)
    rw [intOf, hu, if_pos hint]
  exact (format_roundTrips_iff e cap he).mpr (uncut_strings he (by omega))

def rootEntry : PwEntry := ⟨str "root", str "x", 0, 0, str "root", str "/root", str "/bin/osh"⟩

lemma rootEntry_printable : Printable rootEntry :=
  ⟨by decide, by decide, ⟨_, _, rfl, by decide⟩, by decide⟩

theorem format_roundTrips_root :
    obPasswdParseLine (obPasswdFormatLine rootEntry 600).dropLast = some rootEntry :=
  format_roundTrips rootEntry 600 rootEntry_printable (le_refl _) (by decide)

/-- From `2 ^ 31` on, `(int)cap` can be smaller than the buffer. -/
theorem format_cut_off : 600 ≤ 2 ^ 32 + 9 ∧ Printable rootEntry ∧
    obPasswdParseLine (obPasswdFormatLine rootEntry (2 ^ 32 + 9)).dropLast ≠ some rootEntry :=
  ⟨by decide, rootEntry_printable, by decide +kernel⟩

end Obelisk.Passwd
