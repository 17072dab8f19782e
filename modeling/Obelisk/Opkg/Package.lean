import Obelisk.Opkg.Tar

/-!
# Packages

A package is a tar archive; `unpackOpk` copies its member `files.tar` to a temporary file, which
`extractFilesTar` reads as a tar archive in turn.
-/

namespace Obelisk.Tar

open KLib List

/-- What has been found in a package. -/
structure Unpacked where
  filesTar : Bytes
  metaOut : Bytes
  gotMeta : Bool
  gotFilesTar : Bool

/-- The loop of `unpackOpk`: what has been written to the temporary file, and the metadata unless the
result is `-1`. `zeroBlock` is an array that is not initialised. -/
def unpackLoop (zeroBlock : Bytes) (metaCap : ℕ) : ℕ → Bytes → Unpacked → Bytes × Option Bytes
  | 0, _, u => (u.filesTar, none)
  | fuel + 1, s, u =>
    let hdr := s.take tarBlock
    let s := s.drop tarBlock
    let h := Header.read hdr
    let pad := padOf h.size
    let next := s.drop (h.size + pad)
    let whole := h.size + pad ≤ s.length
    if hdr.length < tarBlock then (u.filesTar, none)
    else if isZeroBlock hdr then
      (u.filesTar, if u.gotMeta && u.gotFilesTar then some u.metaOut else none)
    else if h.name = str "meta.json" then
      if whole then
        unpackLoop zeroBlock metaCap fuel next
          { u with metaOut := s.take (min h.size (metaCap - 1)), gotMeta := true }
      else (u.filesTar, none)
    else if h.name = str "files.tar" then
      if h.size ≤ s.length then
        let filesTar := u.filesTar ++ (s.take h.size ++ zeroBlock.take pad)
        if whole then
          unpackLoop zeroBlock metaCap fuel next { u with filesTar := filesTar, gotFilesTar := true }
        else (filesTar, none)
      else (u.filesTar ++ s.take (s.length / 512 * 512), none)
    else if whole then unpackLoop zeroBlock metaCap fuel next u
    else (u.filesTar, none)

def unpackOpk (zeroBlock : Bytes) (metaCap : ℕ) (opk : Bytes) : Bytes × Option Bytes :=
  unpackLoop zeroBlock metaCap (opk.length + 1) opk ⟨[], [], false, false⟩

/-- A member of an archive, padded to whole blocks. -/
structure Entry where
  hdr : Bytes
  data : Bytes
  fill : Bytes
  len : hdr.length = tarBlock
  nonzero : isZeroBlock hdr = false
  size : (Header.read hdr).size = data.length
  pad : fill.length = padOf data.length

def Entry.name (x : Entry) : Bytes := (Header.read x.hdr).name

def Entry.bytes (x : Entry) : Bytes := x.hdr ++ (x.data ++ x.fill)

def Entry.typeflag (x : Entry) : UInt8 := (Header.read x.hdr).typeflag

def Entry.Regular (x : Entry) : Prop := x.typeflag = 0 ∨ x.typeflag = 48 deriving Decidable

def zeros (k : ℕ) : Bytes := replicate (k * tarBlock) 0

lemma Entry.take_bytes (x : Entry) (t : Bytes) : (x.bytes ++ t).take tarBlock = x.hdr := by
  rw [Entry.bytes, append_assoc, take_left' x.len]

lemma Entry.drop_bytes (x : Entry) (t : Bytes) :
    (x.bytes ++ t).drop tarBlock = x.data ++ (x.fill ++ t) := by
  rw [Entry.bytes, append_assoc, drop_left' x.len, append_assoc]

lemma Entry.drop_data (x : Entry) (t : Bytes) :
    (x.data ++ (x.fill ++ t)).drop (x.data.length + padOf x.data.length) = t := by
  rw [← append_assoc, drop_left' (by rw [length_append, x.pad])]

lemma Entry.length_le (x : Entry) (t : Bytes) :
    x.data.length + padOf x.data.length ≤ (x.data ++ (x.fill ++ t)).length := by
  simp only [length_append, x.pad]
  omega

def Unpacked.add (zeroBlock : Bytes) (metaCap : ℕ) (u : Unpacked) (x : Entry) : Unpacked :=
  if x.name = str "meta.json" then
    { u with metaOut := x.data.take (metaCap - 1), gotMeta := true }
  else if x.name = str "files.tar" then
    { u with
      filesTar := u.filesTar ++ (x.data ++ zeroBlock.take (padOf x.data.length))
      gotFilesTar := true }
  else u

lemma unpackLoop_entry (z : Bytes) (cap fuel : ℕ) (x : Entry) (t : Bytes) (u : Unpacked) :
    unpackLoop z cap (fuel + 1) (x.bytes ++ t) u = unpackLoop z cap fuel t (u.add z cap x) := by
  have hle := x.length_le t
  have hmin : (x.data ++ (x.fill ++ t)).take (min x.data.length (cap - 1)) =
      x.data.take (cap - 1) := by
    rw [take_append_of_le_length (min_le_left ..), take_eq_take_min]
    simp [min_comm]
  simp only [unpackLoop, x.take_bytes, x.drop_bytes, x.len, lt_irrefl, if_false, x.nonzero, x.size,
    x.drop_data, hle, if_true, hmin, Bool.false_eq_true, take_left, Nat.le_of_add_right_le hle]
  change (if x.name = str "meta.json" then _ else if x.name = str "files.tar" then _ else _) = _
  unfold Unpacked.add
  split_ifs <;> rfl

lemma unpackLoop_entries (z : Bytes) (cap fuel : ℕ) (xs : List Entry) (t : Bytes) (u : Unpacked) :
    unpackLoop z cap (xs.length + fuel) (xs.flatMap Entry.bytes ++ t) u =
      unpackLoop z cap fuel t (xs.foldl (Unpacked.add z cap) u) := by
  induction xs generalizing u with
  | nil => simp
  | cons x xs ih =>
    rw [length_cons, Nat.add_right_comm, flatMap_cons, append_assoc, unpackLoop_entry, ih, foldl_cons]

lemma foldl_add (z : Bytes) (cap : ℕ) (xs : List Entry) (u : Unpacked) :
    let v := xs.foldl (Unpacked.add z cap) u
    v.filesTar = u.filesTar ++ (xs.filter (·.name = str "files.tar")).flatMap
        (fun x => x.data ++ z.take (padOf x.data.length)) ∧
      (v.gotFilesTar = true ↔ u.gotFilesTar = true ∨ ∃ x ∈ xs, x.name = str "files.tar") ∧
      (v.gotMeta = true ↔ u.gotMeta = true ∨ ∃ x ∈ xs, x.name = str "meta.json") := by
  induction xs generalizing u with
  | nil => simp
  | cons x xs ih =>
    have hne : str "meta.json" ≠ str "files.tar" := by decide
    obtain ⟨h1, h2, h3⟩ := ih (u.add z cap x)
    rw [foldl_cons]
    refine ⟨h1.trans ?_, h2.trans ?_, h3.trans ?_⟩
    all_goals
      by_cases hm : x.name = str "meta.json"
      · simp [Unpacked.add, hm, hne]
      by_cases hf : x.name = str "files.tar"
      · simp [Unpacked.add, hf, hne.symm]
      · simp [Unpacked.add, hm, hf]

lemma length_le_flatMap (xs : List Entry) : xs.length ≤ (xs.flatMap Entry.bytes).length := by
  induction xs with
  | nil => simp
  | cons x xs ih =>
    have hx : x.bytes.length = tarBlock + (x.data ++ x.fill).length := by
      rw [Entry.bytes, length_append, x.len]
    rw [flatMap_cons, length_append, hx, length_cons, tarBlock]
    omega

lemma padOf_flatMap (xs : List Entry) (k : ℕ) :
    padOf (xs.flatMap Entry.bytes ++ zeros k).length = 0 := by
  have hmod : (xs.flatMap Entry.bytes).length % tarBlock = 0 := by
    induction xs with
    | nil => rfl
    | cons x xs ih =>
      simp only [flatMap_cons, Entry.bytes, length_append, x.len, x.pad, padOf, tarBlock] at ih ⊢
      omega
  rw [length_append, zeros, length_replicate, padOf, Nat.add_mul_mod_self_right, hmod]
  rfl

/-- A member of `files.tar`, with a name as the extraction accepts it. -/
structure Member extends Entry where
  name_ne : toEntry.name ≠ []
  relative : toEntry.name.head? ≠ some 47
  stays : dotdot ∉ comps toEntry.name

def Entry.path (x : Entry) : Bytes := normalizePath x.name

def Env.Willing (e : Env) (m : Member) : Prop :=
  e.opens m.path = true ∧ m.data.length ≤ e.accepts m.path

def created (calls : List Call) : List (Bytes × Bytes) :=
  calls.filterMap fun
    | .mkdir _ _ => none
    | .openWrite p _ d => some (p, d)

def Entry.isDir (x : Entry) : Bool := x.typeflag = 53

/-- The member is not a file whose path is that of the temporary archive. -/
def Env.Spares (e : Env) (m : Member) : Prop := m.isDir = true ∨ sameFile m.path e.tarPath = false

lemma created_append (a b : List Call) : created (a ++ b) = created a ++ created b :=
  filterMap_append ..

lemma created_parents (p : Bytes) : created (ensureParentDirs p) = [] := by
  simp [created, ensureParentDirs]

lemma Env.member_spec {e : Env} {m : Member} (hw : e.Willing m) (t : Bytes) :
    let r := e.member (.read m.hdr) (m.data ++ (m.fill ++ t))
    (r.2 = true ↔ e.Spares m) ∧
      (e.Spares m → created r.1 = if m.isDir then [] else [(m.path, m.data)]) := by
  obtain ⟨ho, ha⟩ := hw
  have hnot : ¬ (m.data ++ (m.fill ++ t)).length < m.data.length := by
    simp only [length_append]
    omega
  simp only [Entry.path, Entry.name] at ho ha
  by_cases hd : (Header.read m.hdr).typeflag = 53
  · simp [Env.member, Env.Spares, Entry.isDir, Entry.typeflag, hd, m.size, m.pad, created]
  by_cases hs : sameFile (normalizePath (Header.read m.hdr).name) e.tarPath = true
  · simp [Env.member, Env.Spares, Entry.isDir, Entry.typeflag, hd, hs, Entry.path, Entry.name]
  have hwr : e.written (normalizePath (Header.read m.hdr).name) m.data.length
      (m.data ++ (m.fill ++ t)) = m.data := by
    rw [Env.written, if_neg (by simp [ho, hs]), if_neg hnot, take_left, take_of_length_le ha]
  simp only [Env.member, hd, if_false, m.size, hwr, created_append, created_parents]
  simp [Env.Spares, Entry.isDir, Entry.typeflag, hd, hs, Entry.path, Entry.name, ho, ha, m.pad, created]

section Members

variable {e : Env} {ms : List Member} {fuel : ℕ} {t : Bytes} {files : List Bytes}

lemma extractLoop_member (m : Member) : extractLoop e (fuel + 1) (m.bytes ++ t) files =
      let r := e.member (.read m.hdr) (m.data ++ (m.fill ++ t))
      let rest := extractLoop e fuel t (e.list (.read m.hdr) files)
      if r.2 then (r.1 ++ rest.1, rest.2) else (r.1, none) := by
  have hname : pathHasTraversal (Header.read m.hdr).name = false :=
    pathHasTraversal_iff.mpr ⟨m.name_ne, m.relative, m.stays⟩
  simp [extractLoop, m.take_bytes, m.drop_bytes, m.len, m.nonzero, hname, m.size, m.drop_data]

lemma extractLoop_members (hw : ∀ m ∈ ms, e.Willing m) (hs : ∀ m ∈ ms, e.Spares m) (fuel : ℕ)
    (t : Bytes) (files : List Bytes) :
    ∃ files', let r := extractLoop e (ms.length + fuel) (ms.flatMap (·.bytes) ++ t) files
      let rest := extractLoop e fuel t files'
      r.2 = rest.2 ∧ created r.1 =
        (ms.filter (!·.isDir)).map (fun m => (m.path, m.data)) ++ created rest.1 := by
  induction ms generalizing files with
  | nil => exact ⟨files, by simp⟩
  | cons m ms ih =>
    obtain ⟨hgo, hc⟩ := Env.member_spec (hw m mem_cons_self) (ms.flatMap (·.bytes) ++ t)
    have hm := hs m mem_cons_self
    obtain ⟨files', h1, h2⟩ := ih (fun m hm => hw m (mem_cons_of_mem _ hm))
      (fun m hm => hs m (mem_cons_of_mem _ hm)) (e.list (.read m.hdr) files)
    refine ⟨files', ?_⟩
    rw [length_cons, Nat.add_right_comm, flatMap_cons, append_assoc, extractLoop_member]
    dsimp only at h1 h2 ⊢
    rw [if_pos (hgo.mpr hm), created_append, hc hm, h2]
    refine ⟨h1, ?_⟩
    cases hd : m.isDir <;> simp [hd]

lemma extractLoop_refused {m : Member} (hw : ∀ m ∈ ms, e.Willing m) (hm : m ∈ ms) (hs : ¬ e.Spares m) :
    (extractLoop e (ms.length + fuel) (ms.flatMap (·.bytes) ++ t) files).2 = none := by
  induction ms generalizing files with
  | nil => simp at hm
  | cons m' ms ih =>
    obtain ⟨hgo, -⟩ := Env.member_spec (hw m' mem_cons_self) (ms.flatMap (·.bytes) ++ t)
    rw [length_cons, Nat.add_right_comm, flatMap_cons, append_assoc, extractLoop_member]
    by_cases hm' : e.Spares m'
    · rw [if_pos (hgo.mpr hm')]
      rcases mem_cons.mp hm with rfl | hm
      · exact absurd hm' hs
      · exact ih (fun m hm => hw m (mem_cons_of_mem _ hm)) hm
    · rw [if_neg (mt hgo.mp hm')]

end Members

lemma extractLoop_zeros (e : Env) (fuel k : ℕ) (files : List Bytes) :
    extractLoop e (fuel + 1) (zeros k) files = ([], if k = 0 then none else some files) := by
  rcases k with _ | k
  · simp [extractLoop, zeros, tarBlock]
  have h : (zeros (k + 1)).take tarBlock = replicate tarBlock 0 := by
    rw [zeros, take_replicate, min_eq_left (by rw [Nat.succ_mul]; omega)]
  simp [extractLoop, h, isZeroBlock]

lemma unpackOpk_files (z rest : Bytes) (cap : ℕ) {k : ℕ} {outer xs : List Entry} {f : Entry}
    (hmeta : ∃ x ∈ outer, x.name = str "meta.json")
    (hf : outer.filter (·.name = str "files.tar") = [f])
    (hdata : f.data = xs.flatMap Entry.bytes ++ zeros k) :
    let r := unpackOpk z cap (outer.flatMap Entry.bytes ++ (zeros 1 ++ rest))
    r.1 = f.data ∧ r.2.isSome := by
  have hmem : f ∈ outer.filter (·.name = str "files.tar") := hf ▸ mem_singleton.mpr rfl
  obtain ⟨hin, hname⟩ := mem_filter.mp hmem
  obtain ⟨h1, h2, h3⟩ := foldl_add z cap outer ⟨[], [], false, false⟩
  have hfuel : (outer.flatMap Entry.bytes ++ (zeros 1 ++ rest)).length + 1 =
      outer.length + ((outer.flatMap Entry.bytes ++ (zeros 1 ++ rest)).length - outer.length + 1) := by
    have := length_le_flatMap outer
    rw [length_append]
    omega
  have hz : (zeros 1 ++ rest).take tarBlock = replicate tarBlock 0 := take_left' (by simp [zeros])
  have hpad : padOf f.data.length = 0 := hdata ▸ padOf_flatMap xs k
  rw [unpackOpk, hfuel, unpackLoop_entries]
  simp only [unpackLoop, hz]
  rw [h1, hf, h2.mpr (.inr ⟨f, hin, by simpa using hname⟩), h3.mpr (.inr hmeta)]
  simp [isZeroBlock, hpad]

lemma filter_dir_iff (ms : List Member) : (ms.filter (!·.isDir)).map (fun m => (m.path, m.data)) =
        (ms.filter (·.Regular)).map (fun m => (m.path, m.data)) ↔
      ∀ m ∈ ms, m.isDir = true ∨ m.Regular := by
  have hreg : ∀ m : Member, m.Regular → m.isDir = false := by
    rintro m (h | h) <;> simp [Entry.isDir, h]
  have hsub : ms.filter (·.Regular) <+ ms.filter (!·.isDir) :=
    monotone_filter_right ms fun m h => by simpa using hreg m (by simpa using h)
  refine ⟨fun h m hm => or_iff_not_imp_left.mpr fun hd => ?_, fun h => congrArg _ (filter_congr fun m hm => ?_)⟩
  · have heq := hsub.eq_of_length (by simpa only [length_map] using (congrArg length h).symm)
    have hin : m ∈ ms.filter (!·.isDir) := mem_filter.mpr ⟨hm, by simpa using hd⟩
    rw [← heq] at hin
    exact of_decide_eq_true (mem_filter.mp hin).2
  rcases h m hm with hd | hr
  · have hnot : ¬ m.Regular := fun hr => by simp [hreg m hr] at hd
    simp [hd, hnot]
  · simp [hr, hreg m hr]

/-- The package is reproduced: both functions succeed, and the files written are the regular files of
`files.tar` with their contents. -/
def Reproduced (e : Env) (r : Bytes × Option Bytes) (ms : List Member) : Prop :=
  r.2.isSome ∧ (extractFilesTar e r.1).2.isSome ∧ created (extractFilesTar e r.1).1 =
      (ms.filter (·.Regular)).map fun m => (m.path, m.data)
  deriving Decidable

/-- **Packages.** A package with one member `files.tar` of well-formed members and `k` zero blocks is
reproduced exactly if there is a zero block, every member is a regular file or a directory, and no
file has the path of the temporary archive. -/
theorem package_reproduced_iff (e : Env) (zeroBlock rest : Bytes) (metaCap k : ℕ)
    (outer : List Entry) (f : Entry) (ms : List Member) (hw : ∀ m ∈ ms, e.Willing m)
    (hmeta : ∃ x ∈ outer, x.name = str "meta.json")
    (hf : outer.filter (·.name = str "files.tar") = [f])
    (hdata : f.data = ms.flatMap (·.bytes) ++ zeros k) :
    Reproduced e (unpackOpk zeroBlock metaCap (outer.flatMap Entry.bytes ++ (zeros 1 ++ rest))) ms ↔
      0 < k ∧ ∀ m ∈ ms, e.Spares m ∧ (m.isDir = true ∨ m.Regular) := by
  have hentries : f.data = (ms.map (·.toEntry)).flatMap Entry.bytes ++ zeros k := by
    rw [hdata, flatMap_map]
  obtain ⟨hr, hsome⟩ := unpackOpk_files zeroBlock rest metaCap hmeta hf hentries
  have hfuel : f.data.length + 1 = ms.length + (f.data.length - ms.length + 1) := by
    have := length_le_flatMap (ms.map (·.toEntry))
    rw [hdata, length_append]
    simp only [length_map, flatMap_map] at this
    omega
  rw [Reproduced, and_iff_right hsome, hr, extractFilesTar, hfuel, hdata]
  by_cases hs : ∀ m ∈ ms, e.Spares m
  · obtain ⟨files', h1, h2⟩ :=
      extractLoop_members hw hs (f.data.length - ms.length + 1) (zeros k) []
    rw [hdata] at h1 h2
    rw [h1, h2, extractLoop_zeros, created, filterMap_nil, append_nil, filter_dir_iff]
    have hk : (if k = 0 then none else some files').isSome = true ↔ 0 < k := by
      split_ifs with h
      · simp [h]
      · simpa using Nat.pos_of_ne_zero h
    rw [hk]
    exact and_congr_right fun _ => forall₂_congr fun m hm => (and_iff_right (hs m hm)).symm
  push Not at hs
  obtain ⟨m, hm, hm'⟩ := hs
  rw [extractLoop_refused hw hm hm']
  refine iff_of_false (by simp) fun h => hm' (h.2 m hm).1

def header (name size : Bytes) (typeflag : UInt8) : Bytes :=
  let field (n : ℕ) (s : Bytes) := s ++ replicate (n - s.length) 0
  field 124 name ++ (field 32 size ++ field 356 [typeflag])

def smallFile : Member where
  hdr := header (str "a") [50] 48
  data := str "hi"
  fill := replicate 510 0
  len := by decide +kernel
  nonzero := by decide +kernel
  size := by decide +kernel
  pad := by decide +kernel
  name_ne := by decide +kernel
  relative := by decide +kernel
  stays := by decide +kernel

def metaEntry : Entry where
  hdr := header (str "meta.json") [] 48
  data := []
  fill := []
  len := by decide +kernel
  nonzero := by decide +kernel
  size := by decide +kernel
  pad := rfl

def filesEntry (k : Fin 2) : Entry where
  hdr := header (str "files.tar") [50 + k.val.toUInt8, 48, 48, 48] 48
  data := smallFile.bytes ++ zeros k
  fill := []
  len := by revert k; decide +kernel
  nonzero := by revert k; decide +kernel
  size := by revert k; decide +kernel
  pad := by revert k; decide +kernel

def smallPackage (k : Fin 2) : Bytes :=
  [metaEntry, filesEntry k].flatMap Entry.bytes ++ (zeros 1 ++ [])

def smallEnv : Env := ⟨str "/t", fun _ => true, fun _ => 9, 9⟩

theorem package_reproduced_small :
    Reproduced smallEnv (unpackOpk [] 9 (smallPackage 1)) [smallFile] := by
  have hm : metaEntry.name = str "meta.json" := by decide +kernel
  have hn : (filesEntry 1).name = str "files.tar" := by decide +kernel
  have hne : str "meta.json" ≠ str "files.tar" := by decide
  refine (package_reproduced_iff smallEnv [] [] 9 1 [metaEntry, filesEntry 1] (filesEntry 1)
    [smallFile] (forall_mem_singleton.mpr ⟨rfl, by decide⟩) ⟨metaEntry, mem_cons_self, hm⟩ ?_ ?_).mpr
    ⟨Nat.one_pos, ?_⟩
  · rw [filter_cons_of_neg (by simp [hm, hne]), filter_cons_of_pos (by simp [hn]), filter_nil]
  · rw [flatMap_singleton]
    rfl
  intro m hin
  rw [mem_singleton.mp hin]
  exact ⟨.inr (by decide +kernel), .inr (by decide +kernel)⟩

/-- A package as the comment in the source describes it, without a zero block in `files.tar`. -/
theorem package_without_end : (filesEntry 0).data = smallFile.bytes ∧ (unpackOpk [] 9 (smallPackage 0)).2.isSome ∧
      ¬ Reproduced smallEnv (unpackOpk [] 9 (smallPackage 0)) [smallFile] := by
  decide +kernel

end Obelisk.Tar
