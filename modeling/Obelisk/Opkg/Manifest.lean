import Obelisk.Lib.Path

/-!
# Manifest paths

`normalizeManifestPath` and `ensureAbsoluteInsideRoot` of `opkg/source/util/fs.d`.
-/

namespace Obelisk.Manifest

open KLib List

variable {s t : Bytes} {b : Bool} {cs : List Bytes}

def trimLeadingSlash (s : Bytes) : Bytes := s.dropWhile (· = 47)

def collapse : Bool → Bytes → Bytes
  | _, [] => []
  | last, c :: s =>
    if c = 47 then if last then collapse true s else c :: collapse true s else c :: collapse false s

def dropTrailing (s : Bytes) : Bytes :=
  if 1 < s.length ∧ s.getLast? = some 47 then s.dropLast else s

def normalizePathLite (s : Bytes) : Bytes :=
  if s = [] then [47]
  else
    let result := dropTrailing (collapse false s)
    if result = [] then [47] else result

/-- One segment of the path, with the contents of `builder` and the flag `first`. -/
def putSegment (b : Bytes × Bool) (seg : Bytes) : Except String (Bytes × Bool) :=
  if seg = [] ∨ seg = [46] then .ok b
  else if seg = [46, 46] then .error "path traversal entry is not allowed"
  else if 0 ∈ seg then .error "manifest path contains NUL"
  else .ok ((if b.2 then b.1 else b.1 ++ [47]) ++ seg, false)

def normalizeManifestPath (path : Bytes) : Except String Bytes :=
  let raw := trimLeadingSlash (normalizePathLite path)
  if raw = [] then .error "invalid empty manifest path"
  else do
    let b ← (comps raw).foldlM putSegment ([47], true)
    if b.1.length ≤ 1 then .error "invalid manifest path" else .ok b.1

/-- `buildPath` of the D library for a directory and a relative path. -/
def buildPath (root rel : Bytes) : Bytes :=
  if root.getLast? = some 47 then root ++ rel else root ++ 47 :: rel

def ensureAbsoluteInsideRoot (rootPath relPath : Bytes) : Except String Bytes := do
  let root := normalizePathLite (if rootPath = [] then [47] else rootPath)
  let rel ← trimLeadingSlash <$> normalizeManifestPath relPath
  .ok (normalizePathLite (if root = [47] then 47 :: rel else buildPath root rel))

def join (cs : List Bytes) : Bytes := cs.flatMap (47 :: ·)

lemma names_slash (s : Bytes) : names (47 :: s) = names s := by
  simp [names]

lemma names_append (s t : Bytes) : names (s ++ 47 :: t) = names s ++ names t := by
  rw [names, comps_append, filter_append]
  rfl

lemma names_trim (s : Bytes) : names (trimLeadingSlash s) = names s := by
  induction s with
  | nil => rfl
  | cons c s ih =>
    by_cases hc : c = 47
    · rw [hc, names_slash, ← ih, trimLeadingSlash, dropWhile_cons_of_pos (by simp)]
      rfl
    · rw [trimLeadingSlash, dropWhile_cons_of_neg (by simpa using hc)]

/-- The flag `lastSlash` behind a text. -/
def after (b : Bool) (s : Bytes) : Bool := s.foldl (fun _ c => decide (c = 47)) b

lemma collapse_append (b : Bool) (s t : Bytes) :
    collapse b (s ++ t) = collapse b s ++ collapse (after b s) t := by
  induction s generalizing b with
  | nil => rfl
  | cons c s ih =>
    have hafter : after b (c :: s) = after (decide (c = 47)) s := rfl
    rw [hafter, cons_append, collapse, collapse]
    by_cases hc : c = 47
    · rw [if_pos hc, if_pos hc, decide_eq_true hc]
      cases b <;> simp [ih]
    · rw [if_neg hc, if_neg hc, decide_eq_false hc, ih, cons_append]

lemma collapse_of_notMem (h : 47 ∉ s) (b : Bool) : collapse b s = s := by
  induction s generalizing b with
  | nil => rfl
  | cons c s ih =>
    obtain ⟨hc, hs⟩ := not_or.mp (mt mem_cons.mpr h)
    rw [collapse, if_neg (Ne.symm hc), ih hs]

lemma after_of_notMem (h : 47 ∉ s) (hne : s ≠ []) (b : Bool) : after b s = false := by
  rw [after, ← dropLast_append_getLast hne, foldl_append]
  exact decide_eq_false fun he => h (he ▸ getLast_mem hne)

lemma collapse_collapse (b : Bool) (s : Bytes) : collapse b (collapse b s) = collapse b s := by
  induction s generalizing b with
  | nil => rfl
  | cons c s ih =>
    by_cases hc : c = 47
    · cases b <;> simp [collapse, hc, ih]
    · simp [collapse, hc, ih]

lemma length_collapse_le (b : Bool) (s : Bytes) : (collapse b s).length ≤ s.length := by
  induction s generalizing b with
  | nil => rfl
  | cons c s ih =>
    have := ih true
    have := ih false
    rw [collapse]
    split_ifs <;> simp only [length_cons] <;> omega

lemma names_collapse (b : Bool) (s : Bytes) : names (collapse b s) = names s := by
  induction s using comps_induction generalizing b with
  | last s hs => rw [collapse_of_notMem hs]
  | more s t hs ih =>
    rcases eq_or_ne s [] with rfl | hne
    · cases b <;> simp [collapse, names_slash, ih]
    rw [collapse_append, collapse_of_notMem hs, after_of_notMem hs hne, collapse, if_pos rfl,
      if_neg Bool.false_ne_true, names_append, names_append, ih]

lemma dropTrailing_cases (s : Bytes) :
    dropTrailing s ++ [47] = s ∨ dropTrailing s = s ∧ (s = [47] ∨ s.getLast? ≠ some 47) := by
  unfold dropTrailing
  split_ifs with h
  · exact .inl (dropLast_append_getLast? 47 h.2)
  refine .inr ⟨rfl, or_iff_not_imp_right.mpr fun hl => ?_⟩
  rw [not_not] at hl
  have hs := dropLast_append_getLast? 47 hl
  have hone : ¬ 1 < s.length := fun h1 => h ⟨h1, hl⟩
  have hlen := congrArg length hs
  rw [length_append, length_singleton] at hlen
  rw [← hs, length_eq_zero_iff.mp (by omega : s.dropLast.length = 0), nil_append]

lemma names_lite (s : Bytes) : names (normalizePathLite s) = names s := by
  have hdrop : names (dropTrailing (collapse false s)) = names s := by
    rw [← names_collapse false s]
    rcases dropTrailing_cases (collapse false s) with h | ⟨h, -⟩
    · rw [← h, names_append, h]
      exact (append_nil _).symm
    · rw [h]
  unfold normalizePathLite
  dsimp only
  split_ifs with h0 h1
  · rw [h0]
    decide
  · rw [← hdrop, h1]
    decide
  · exact hdrop

/-- The normalised root is not changed by the last normalisation, and does not end in a slash. -/
theorem lite_root (h : normalizePathLite s ≠ [47]) : collapse false (normalizePathLite s) = normalizePathLite s ∧
      after false (normalizePathLite s) = false := by
  unfold normalizePathLite at h ⊢
  dsimp only at h ⊢
  split_ifs at h ⊢ with h0 h1
  · exact absurd rfl h
  · exact absurd rfl h
  have hfix := collapse_collapse false s
  rcases dropTrailing_cases (collapse false s) with hd | ⟨hd, hl⟩
  · rw [← hd, collapse_append] at hfix
    have hle := length_collapse_le false (dropTrailing (collapse false s))
    cases ha : after false (dropTrailing (collapse false s)) with
    | false =>
      rw [ha] at hfix
      exact ⟨(append_inj hfix (by simpa [collapse] using congrArg length hfix)).1, rfl⟩
    | true =>
      have hlen := congrArg length hfix
      simp [ha, collapse] at hlen
      omega
  rw [hd] at h h1 ⊢
  refine ⟨hfix, ?_⟩
  rw [after, ← dropLast_append_getLast h1, foldl_append]
  refine decide_eq_false fun he => (hl.resolve_left h) ?_
  rw [getLast?_eq_some_getLast h1, he]

/-! ## The closed form -/

/-- Components as they are left by `names`, in a path that is not refused. -/
structure Plain (cs : List Bytes) : Prop where
  ne : ∀ c ∈ cs, c ≠ [] ∧ c ≠ [46] ∧ 47 ∉ c
  ok : ∀ c ∈ cs, c ≠ [46, 46] ∧ 0 ∉ c

lemma Plain.mono {ds : List Bytes} (h : Plain cs) (hs : ds ⊆ cs) : Plain ds :=
  ⟨fun c hc => h.ne c (hs hc), fun c hc => h.ok c (hs hc)⟩

lemma Plain.tail {c : Bytes} (h : Plain (c :: cs)) : Plain cs := h.mono (subset_cons_self ..)

lemma names_join (h : Plain cs) : names (join cs) = cs := by
  induction cs using reverseRecOn with
  | nil => rfl
  | append_singleton cs c ih =>
    obtain ⟨h1, h2, h3⟩ := h.ne c (by simp)
    have hc : names c = [c] := by simp [names, comps_of_notMem h3, h1, h2]
    have hjoin : join (cs ++ [c]) = join cs ++ 47 :: c := by simp [join]
    rw [hjoin, names_append, hc, ih (h.mono (subset_append_left ..))]

lemma collapse_join (h : Plain cs) : collapse false (join cs) = join cs ∧
    (cs ≠ [] → ∀ b, after b (join cs) = false) := by
  induction cs with
  | nil => exact ⟨rfl, fun h => absurd rfl h⟩
  | cons d cs ih =>
    obtain ⟨hne, -, hd⟩ := h.ne d mem_cons_self
    have hjoin : join (d :: cs) = 47 :: (d ++ join cs) := by rw [join, flatMap_cons, cons_append]; rfl
    obtain ⟨h1, h2⟩ := ih h.tail
    rw [hjoin]
    refine ⟨?_, fun _ b => ?_⟩
    · rw [collapse, if_pos rfl, if_neg Bool.false_ne_true, collapse_append, collapse_of_notMem hd,
        after_of_notMem hd hne, h1]
    rw [after, foldl_cons, foldl_append]
    change after (after _ d) (join cs) = false
    rcases eq_or_ne cs [] with rfl | hcs
    · exact after_of_notMem hd hne _
    · exact h2 hcs _

lemma getLast_of_after (ha : after false s = false) : s.getLast? ≠ some 47 := by
  intro hl
  rw [after, ← dropLast_append_getLast? 47 hl, foldl_append] at ha
  simp at ha

lemma lite_of_fixed (hne : s ≠ []) (hfix : collapse false s = s) (ha : after false s = false) :
    normalizePathLite s = s := by
  have hdrop : dropTrailing s = s := if_neg fun h => getLast_of_after ha h.2
  unfold normalizePathLite
  rw [if_neg hne, hfix, hdrop, if_neg hne]

lemma foldlM_names (s : Bytes) (b : Bytes × Bool) :
    (comps s).foldlM putSegment b = (names s).foldlM putSegment b := by
  unfold names
  induction comps s generalizing b with
  | nil => rfl
  | cons c cs ih =>
    by_cases hc : c = [] ∨ c = [46]
    · rw [foldlM_cons, filter_cons_of_neg (by simpa [or_iff_not_imp_left] using hc), ← ih, putSegment, if_pos hc]
      rfl
    rw [filter_cons_of_pos (by simpa using hc), foldlM_cons, foldlM_cons]
    exact congrArg _ (funext ih)

lemma putSegment_plain {c : Bytes} (h : Plain (c :: cs)) (b : Bytes × Bool) :
    putSegment b c = .ok ((if b.2 then b.1 else b.1 ++ [47]) ++ c, false) := by
  obtain ⟨h1, h2, -⟩ := h.ne c mem_cons_self
  obtain ⟨h3, h4⟩ := h.ok c mem_cons_self
  simp [putSegment, h1, h2, h3, h4]

lemma foldlM_plain (h : Plain cs) (b : Bytes) :
    cs.foldlM putSegment (b, false) = .ok (b ++ join cs, false) := by
  induction cs generalizing b with
  | nil => rw [join, flatMap_nil, append_nil]; rfl
  | cons c cs ih =>
    rw [foldlM_cons, putSegment_plain h, if_neg Bool.false_ne_true]
    refine (ih h.tail _).trans ?_
    simp [join]

lemma foldlM_refused (hk : ∀ c ∈ cs, c ≠ [] ∧ c ≠ [46]) (hbad : ∃ c ∈ cs, c = [46, 46] ∨ 0 ∈ c)
    (b : Bytes × Bool) : ∃ msg, cs.foldlM putSegment b = .error msg := by
  induction cs generalizing b with
  | nil => simp at hbad
  | cons c cs ih =>
    rw [foldlM_cons, putSegment, if_neg (not_or.mpr (hk c mem_cons_self))]
    by_cases h1 : c = [46, 46]
    · exact ⟨_, by rw [if_pos h1]; rfl⟩
    rw [if_neg h1]
    by_cases h2 : 0 ∈ c
    · exact ⟨_, by rw [if_pos h2]; rfl⟩
    rw [if_neg h2]
    refine ih (fun c hc => hk c (mem_cons_of_mem _ hc)) ?_ _
    obtain ⟨d, hd, hd'⟩ := hbad
    rcases mem_cons.mp hd with rfl | hd
    · exact absurd hd' (not_or.mpr ⟨h1, h2⟩)
    · exact ⟨d, hd, hd'⟩

def Refused (p : Bytes) : Prop := names p = [] ∨ ∃ c ∈ comps p, c = [46, 46] ∨ 0 ∈ c

lemma plain_names (h : ¬ Refused s) : Plain (names s) := by
  obtain ⟨-, hbad⟩ := not_or.mp h
  refine ⟨fun c hc => ?_, fun c hc => not_or.mp fun hc' => hbad ⟨c, (mem_filter.mp hc).1, hc'⟩⟩
  obtain ⟨hc, hk⟩ := mem_filter.mp hc
  rw [decide_eq_true_eq] at hk
  exact ⟨hk.1, hk.2, notMem_of_mem_comps hc⟩

lemma names_raw (s : Bytes) : names (trimLeadingSlash (normalizePathLite s)) = names s := by
  rw [names_trim, names_lite]

lemma normalizeManifestPath_ok (h : ¬ Refused s) :
    normalizeManifestPath s = .ok (join (names s)) := by
  have hp := plain_names h
  obtain ⟨hne, -⟩ := not_or.mp h
  have h0 : trimLeadingSlash (normalizePathLite s) ≠ [] := fun h0 => hne (by rw [← names_raw, h0]; rfl)
  unfold normalizeManifestPath
  rw [if_neg h0, foldlM_names, names_raw]
  cases hn : names s with
  | nil => exact absurd hn hne
  | cons c cs =>
    rw [hn] at hp
    have hjoin : join (c :: cs) = [47] ++ c ++ join cs := by simp [join]
    have hc : c.length ≠ 0 := fun h0 => (hp.ne c mem_cons_self).1 (length_eq_zero_iff.mp h0)
    have hfold : (c :: cs).foldlM putSegment ([47], true) = .ok ([47] ++ c ++ join cs, false) := by
      rw [foldlM_cons, putSegment_plain hp]
      exact foldlM_plain hp.tail _
    rw [hfold, hjoin]
    have hlen : ¬ ([47] ++ c ++ join cs).length ≤ 1 := by
      simp only [length_append, length_singleton]
      omega
    exact if_neg hlen

lemma keep_of_bad {c : Bytes} (h : c = [46, 46] ∨ 0 ∈ c) : c ≠ [] ∧ c ≠ [46] := by
  refine ⟨?_, ?_⟩ <;> rintro rfl <;> simp at h

lemma normalizeManifestPath_error (h : Refused s) : ∃ msg, normalizeManifestPath s = .error msg := by
  unfold normalizeManifestPath
  dsimp only
  split_ifs with h0
  · exact ⟨_, rfl⟩
  rw [foldlM_names, names_raw]
  rcases h with h | ⟨c, hc, hbad⟩
  · exact ⟨_, by rw [h]; rfl⟩
  have hk : ∀ c ∈ names s, c ≠ [] ∧ c ≠ [46] := fun c hc => by simpa using (mem_filter.mp hc).2
  obtain ⟨msg, hm⟩ := foldlM_refused hk
    ⟨c, mem_filter.mpr ⟨hc, decide_eq_true (keep_of_bad hbad)⟩, hbad⟩ ([47], true)
  exact ⟨msg, by rw [hm]; rfl⟩

lemma join_cons (h : Plain cs) (hne : cs ≠ []) :
    ∃ t, join cs = 47 :: t ∧ trimLeadingSlash (join cs) = t := by
  obtain ⟨c, cs, rfl⟩ := exists_cons_of_ne_nil hne
  obtain ⟨h1, -, h2⟩ := h.ne c mem_cons_self
  obtain ⟨d, c, rfl⟩ := exists_cons_of_ne_nil h1
  have hd : d ≠ 47 := fun he => h2 (he ▸ mem_cons_self)
  exact ⟨d :: c ++ join cs, rfl, by simp [join, trimLeadingSlash, hd]⟩

def under (root : Bytes) (cs : List Bytes) : Bytes :=
  (if normalizePathLite root = [47] then [] else normalizePathLite root) ++ join cs

/-- **Manifest paths.** For every path and root: a path is refused exactly if a component is `..` or
holds a `NUL`, or there is none but `.` and the empty one; otherwise the result is the other components
behind a slash each, which is its own result, and inside a root it is placed under the root. -/
theorem manifest_paths (p root : Bytes) :
    ((∃ msg, normalizeManifestPath p = .error msg) ↔ Refused p) ∧ (¬ Refused p →
        normalizeManifestPath p = .ok (join (names p)) ∧
        normalizeManifestPath (join (names p)) = .ok (join (names p)) ∧
        ensureAbsoluteInsideRoot root p = .ok (under root (names p)) ∧
        (normalizePathLite root = [47] ∨ normalizePathLite root ++ [47] <+: under root (names p))) := by
  refine ⟨⟨fun ⟨msg, hm⟩ => ?_, normalizeManifestPath_error⟩, fun h => ⟨normalizeManifestPath_ok h, ?_⟩⟩
  · by_contra h
    rw [normalizeManifestPath_ok h] at hm
    cases hm
  have hp := plain_names h
  obtain ⟨hne, hbad⟩ := not_or.mp h
  obtain ⟨hfix, hafter⟩ := collapse_join hp
  obtain ⟨t, ht, htrim⟩ := join_cons hp hne
  refine ⟨?_, ?_, ?_⟩
  · have hagain : ¬ Refused (join (names p)) := by
      rw [Refused, names_join hp]
      refine not_or.mpr ⟨hne, fun ⟨c, hc, hc'⟩ => ?_⟩
      have hc : c ∈ names (join (names p)) := mem_filter.mpr ⟨hc, decide_eq_true (keep_of_bad hc')⟩
      rw [names_join hp] at hc
      exact hbad ⟨c, (mem_filter.mp hc).1, hc'⟩
    rw [normalizeManifestPath_ok hagain, names_join hp]
  · have hroot : normalizePathLite (if root = [] then [47] else root) = normalizePathLite root := by
      split_ifs with h0
      · rw [h0]
        decide
      · rfl
    unfold ensureAbsoluteInsideRoot under
    rw [normalizeManifestPath_ok h, hroot]
    change Except.ok (normalizePathLite
      (if _ then 47 :: trimLeadingSlash _ else buildPath _ (trimLeadingSlash _))) = _
    rw [htrim]
    split_ifs with hr
    · rw [← ht, nil_append, lite_of_fixed (by rw [ht]; exact cons_ne_nil _ _) hfix (hafter hne _)]
    obtain ⟨h1, h2⟩ := lite_root hr
    rw [buildPath, if_neg (getLast_of_after h2), ← ht, lite_of_fixed]
    · rw [ht]
      simp
    · rw [collapse_append, h1, h2, hfix]
    rw [after, foldl_append]
    exact hafter hne _
  refine or_iff_not_imp_left.mpr fun hr => ?_
  rw [under, if_neg hr, ht]
  exact ⟨t, by simp⟩

end Obelisk.Manifest
