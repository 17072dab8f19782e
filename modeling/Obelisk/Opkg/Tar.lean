import Mathlib.Data.List.Infix
import Obelisk.Lib.Path

/-!
# Extracting the files of a package

`extractFilesTar` of `userland/bin/opkg/opkg_d.d`: the members of a tar archive are written to the
file system.
-/

namespace Obelisk.Tar

open KLib List

variable {s : Bytes} {n : ℕ}

def dotdot : Bytes := [46, 46]

def copyStr (src : Bytes) (cap : ℕ) : Bytes := src.take (cap - 1)

def stripDot : Bytes → Bytes
  | 46 :: 47 :: t => t
  | s => s

def normalizePath (s : Bytes) : Bytes :=
  let s := stripDot s
  if s.head? = some 47 then s else if s.length + 1 < 255 then 47 :: s else s

def climbs : ℕ → Bytes → Bool
  | 0, _ => false
  | n + 1, s =>
    let s := s.dropWhile (· = 47)
    if s = [] then false
    else if s.takeWhile (· ≠ 47) = dotdot then true
    else climbs n (s.dropWhile (· ≠ 47))

def pathHasTraversal (s : Bytes) : Bool :=
  s = [] || s.head? = some 47 || (dotdot <:+: s && climbs (s.length + 1) s)

lemma climbs_iff (h : s.length < n) : climbs n s = true ↔ dotdot ∈ comps s := by
  induction n generalizing s with
  | zero => simp at h
  | succ n ih =>
    have hne : dotdot ≠ [] := by decide
    rw [climbs, ← mem_comps_dropWhile hne]
    have hle : (s.dropWhile (· = 47)).length ≤ s.length := length_dropWhile_le _ s
    cases ht : s.dropWhile (· = 47) with
    | nil => simp [hne]
    | cons c t =>
      -- the first component is not empty, so that the rest is shorter
      have hc : c ≠ 47 := by
        have hh := head_dropWhile_not (fun x : UInt8 => decide (x = 47)) (l := s) (by simp [ht])
        simpa [ht] using hh
      have hlt : ((c :: t).dropWhile (· ≠ 47)).length < n := by
        have := length_dropWhile_le (fun x : UInt8 => decide (x ≠ 47)) t
        rw [ht] at hle
        simp only [dropWhile_cons, decide_eq_true hc, if_true, length_cons] at hle ⊢
        omega
      rw [mem_comps_iff hne, ← ih hlt]
      rw [if_neg (cons_ne_nil c t)]
      by_cases hd : (c :: t).takeWhile (· ≠ 47) = dotdot
      · exact iff_of_true (if_pos hd) (.inl hd)
      · rw [if_neg hd, or_iff_right hd]

lemma pathHasTraversal_iff :
    pathHasTraversal s = false ↔ s ≠ [] ∧ s.head? ≠ some 47 ∧ dotdot ∉ comps s := by
  have h := climbs_iff (Nat.lt_succ_self s.length)
  have hi : dotdot ∈ comps s → dotdot <:+: s := infix_of_mem_comps
  by_cases hm : dotdot ∈ comps s
  · simp [pathHasTraversal, h.mpr hm, hi hm, hm]
  have hf : climbs (s.length + 1) s = false := by simpa using mt h.mp hm
  simp [pathHasTraversal, hf, hm]

/-- An absolute path that no `..` leads out of. -/
structure Confined (p : Bytes) : Prop where
  abs : p.head? = some 47
  stays : dotdot ∉ comps p

lemma stripDot_cases (s : Bytes) : stripDot s = s ∨ s = [46] ++ 47 :: stripDot s := by
  unfold stripDot
  split
  · exact .inr rfl
  · exact .inl rfl

lemma normalizePath_confined (hs : pathHasTraversal s = false) (hlen : s.length ≤ 100) :
    Confined (normalizePath s) := by
  obtain ⟨-, -, hdots⟩ := pathHasTraversal_iff.mp hs
  have hstrip : dotdot ∉ comps (stripDot s) ∧ (stripDot s).length ≤ 100 := by
    rcases stripDot_cases s with h | h
    · rw [h]
      exact ⟨hdots, hlen⟩
    rw [h, comps_append, mem_append, not_or] at hdots
    have hl := congrArg length h
    simp only [length_append, length_cons] at hl
    exact ⟨hdots.2, by omega⟩
  unfold normalizePath
  dsimp only
  split_ifs with h1 h2
  · exact ⟨h1, hstrip.1⟩
  · exact ⟨rfl, by simpa [dotdot] using hstrip.1⟩
  · omega

/-! ## Archives -/

def tarBlock : ℕ := 512

def parseOctal : Bytes → ℕ → ℕ
  | [], v => v
  | c :: s, v =>
    if c = 0 ∨ c = 32 ∨ c = 9 then parseOctal s v
    else if c < 48 ∨ 55 < c then v
    else parseOctal s (v * 8 + (c.toNat - 48))

/-- The fields of a tar header that are read. -/
structure Header where
  name : Bytes
  mode : ℕ
  size : ℕ
  typeflag : UInt8

def Header.read (hdr : Bytes) : Header where
  name := cstr (hdr.take 100)
  mode :=
    let mode := parseOctal ((hdr.drop 100).take 8) 0
    if mode = 0 then 420 else mode
  size := parseOctal ((hdr.drop 124).take 12) 0
  typeflag := hdr.getD 156 0

def isZeroBlock (b : Bytes) : Bool := b.all (· = 0)

def padOf (size : ℕ) : ℕ := (tarBlock - size % tarBlock) % tarBlock

/-- A call of `extractFilesTar` to the kernel; `open` with the bytes that are then written. -/
inductive Call
  | mkdir (path : Bytes) (mode : ℕ)
  | openWrite (path : Bytes) (mode : ℕ) (data : Bytes)
  deriving DecidableEq

def Call.path : Call → Bytes
  | mkdir p _ | openWrite p _ _ => p

/-- The answers of the kernel: which paths can be opened, and how many bytes a file takes. -/
structure Env where
  tarPath : Bytes
  opens : Bytes → Bool
  accepts : Bytes → ℕ
  maxFiles : ℕ

def sameFile (p q : Bytes) : Bool := names p = names q

def ensureParentDirs (path : Bytes) : List Call :=
  let tmp := copyStr path 256
  ((range tmp.length).filter fun i => 0 < i ∧ tmp[i]? = some 47).map fun i => .mkdir (tmp.take i) 493

/-- What is written of a member: whole chunks, if the archive ends too early, and nothing when `open`
fails or the file is the archive itself, which `open` has truncated. -/
def Env.written (e : Env) (name : Bytes) (size : ℕ) (s : Bytes) : Bytes :=
  if e.opens name = false ∨ sameFile name e.tarPath then []
  else (if s.length < size then s.take (s.length / 512 * 512) else s.take size).take (e.accepts name)

/-- A member whose header has been read: the calls, and whether the loop goes on behind it. -/
def Env.member (e : Env) (h : Header) (s : Bytes) : List Call × Bool :=
  let name := normalizePath h.name
  let whole := h.size + padOf h.size ≤ s.length
  if h.typeflag = 53 then ([.mkdir name h.mode], whole)
  else
    (ensureParentDirs name ++ [.openWrite name h.mode (e.written name h.size s)],
      e.opens name ∧ ¬ sameFile name e.tarPath ∧ h.size ≤ e.accepts name ∧ whole)

def Env.list (e : Env) (h : Header) (files : List Bytes) : List Bytes :=
  if h.typeflag ≠ 53 ∧ files.length < e.maxFiles then files ++ [copyStr (normalizePath h.name) 256]
  else files

def extractLoop (e : Env) : ℕ → Bytes → List Bytes → List Call × Option (List Bytes)
  | 0, _, _ => ([], none)
  | fuel + 1, s, files =>
    let hdr := s.take tarBlock
    let s := s.drop tarBlock
    let h := Header.read hdr
    let m := e.member h s
    if hdr.length < tarBlock then ([], none)
    else if isZeroBlock hdr then ([], some files)
    else if pathHasTraversal h.name then ([], none)
    else if m.2 then
      let r := extractLoop e fuel (s.drop (h.size + padOf h.size)) (e.list h files)
      (m.1 ++ r.1, r.2)
    else (m.1, none)

/-- The calls, and the names of the files unless the result is `-1`. -/
def extractFilesTar (e : Env) (tar : Bytes) : List Call × Option (List Bytes) :=
  extractLoop e (tar.length + 1) tar []

lemma ensureParentDirs_confined {p : Bytes} (hp : Confined p) :
    ∀ c ∈ ensureParentDirs p, Confined c.path := by
  intro c hc
  simp only [ensureParentDirs, mem_map, mem_filter, mem_range, decide_eq_true_eq] at hc
  obtain ⟨i, ⟨hi, hpos, hslash⟩, rfl⟩ := hc
  have hle : i < (copyStr p 256).length := hi
  rw [copyStr, length_take] at hle
  have htake : (copyStr p 256).take i = p.take i := by
    rw [copyStr, take_take, min_eq_left (by omega)]
  have hp47 : p[i]? = some 47 := by
    rwa [copyStr, getElem?_take_of_lt (by omega)] at hslash
  obtain ⟨hlt, he⟩ := List.getElem?_eq_some_iff.mp hp47
  have hsplit : p = p.take i ++ 47 :: p.drop (i + 1) := by
    rw [← he, ← drop_eq_getElem_cons hlt, take_append_drop]
  rw [Call.path, htake]
  refine ⟨?_, fun h => hp.stays ?_⟩
  · rw [head?_take, if_neg (by omega), hp.abs]
  rw [hsplit, comps_append]
  exact mem_append_left _ h

lemma Env.member_confined {e : Env} {hdr : Bytes} (h : pathHasTraversal (Header.read hdr).name = false) :
    ∀ c ∈ (e.member (.read hdr) s).1, Confined c.path := by
  have hname : Confined (normalizePath (Header.read hdr).name) :=
    normalizePath_confined h ((takeWhile_sublist _).length_le.trans (length_take_le ..))
  intro c hc
  unfold Env.member at hc
  dsimp only at hc
  split_ifs at hc
  · rwa [mem_singleton.mp hc]
  rcases mem_append.mp hc with hc | hc
  · exact ensureParentDirs_confined hname c hc
  rwa [mem_singleton.mp hc]

/-- **Package payloads stay below the root.** Whatever the archive holds, every path that is created or
opened is absolute and has no component `..`. -/
theorem extractFilesTar_confined (e : Env) (tar : Bytes) :
    ∀ c ∈ (extractFilesTar e tar).1, Confined c.path := by
  suffices H : ∀ fuel s files, ∀ c ∈ (extractLoop e fuel s files).1, Confined c.path from H _ _ _
  intro fuel
  induction fuel with
  | zero => intro s files c hc; simp [extractLoop] at hc
  | succ fuel ih =>
    intro s files c hc
    simp only [extractLoop] at hc
    split_ifs at hc with h1 h2 h3 h4
    · simp at hc
    · simp at hc
    · simp at hc
    · rcases mem_append.mp hc with hc | hc
      · exact Env.member_confined (by simpa using h3) c hc
      · exact ih _ _ c hc
    · exact Env.member_confined (by simpa using h3) c hc

theorem extractFilesTar_confined_small : Confined (Call.openWrite [47, 97] 420 []).path :=
  extractFilesTar_confined ⟨[], fun _ => true, fun _ => 0, 0⟩ (97 :: replicate 511 0) _ (by decide +kernel)

end Obelisk.Tar
