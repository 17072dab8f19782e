import Obelisk.Initd.Model

/-!
# The identity of a service

A service whose file names a user, and sets no uid, gets the uid that `/etc/passwd` gives to the
user, if the lookup succeeds.
-/

namespace Obelisk.Initd

open KLib List Option

variable {α : Type*} {content key path value : Bytes} {l : Launch} {files : Files} {svc : Service} {k : ℕ → Answers}

def settings (content : Bytes) : List (Bytes × Bytes) := (lines content).filterMap setting

def visible (content : Bytes) : Bytes := cstr (content.take 4095)

def NoUid (content : Bytes) : Prop := ∀ kv ∈ settings content, kv.1 ≠ str "uid"

instance (content : Bytes) : Decidable (NoUid content) := by unfold NoUid; infer_instance

/-- The last `user=` line of the file names a user other than root, and it has no `uid=` line. -/
structure Names (content user : Bytes) : Prop where
  last : lastValue (str "user") (settings content) = some user
  notRoot : user ≠ str "root"
  noUid : NoUid content

instance (content user : Bytes) : Decidable (Names content user) :=
  decidable_of_iff (lastValue (str "user") (settings content) = some user ∧ user ≠ str "root" ∧
    NoUid content) ⟨fun ⟨h1, h2, h3⟩ => ⟨h1, h2, h3⟩, fun ⟨h1, h2, h3⟩ => ⟨h1, h2, h3⟩⟩

def uidField (user line : Bytes) : Option ℕ :=
  match passwdFields line with
  | f0 :: _ :: f2 :: _ => if f0 = user then decimal f2 else none
  | _ => none

def HasUidLine (files : Files) (user : Bytes) (uid : ℕ) : Prop :=
  ∃ content, files (str "/etc/passwd") = some content ∧ ∃ l ∈ lines content, uidField user l = some uid

instance (files : Files) (user : Bytes) (uid : ℕ) : Decidable (HasUidLine files user uid) :=
  decidable_of_iff (∃ l ∈ ((files (str "/etc/passwd")).map lines).getD [], uidField user l = some uid)
    (by cases h : files (str "/etc/passwd") <;> simp [HasUidLine, h])

def uidOf (user line : Bytes) : Option ℕ :=
  match passwdFields line with
  | f0 :: _ :: f2 :: f3 :: _ => if f0 = user ∧ (decimal f3).isSome then decimal f2 else none
  | _ => none

/-- The name that the service file shows within the buffers is found in what is seen of `/etc/passwd`,
with a uid that is not 0 as a machine word. -/
def Resolves (files : Files) (content : Bytes) : Prop :=
  ∃ name passwd uid, lastValue (str "user") (settings (visible content)) = some name ∧
    name.take 31 ≠ [] ∧ name.take 31 ≠ str "root" ∧
    files (str "/etc/passwd") = some passwd ∧
    (lines (visible passwd)).findSome? (uidOf (name.take 31)) = some uid ∧ ¬ 2 ^ 32 ∣ uid

/-! ## Cut files -/

lemma takeWhile_append_of_mem {p : α → Bool} {s : List α} {a : α} (ha : a ∈ s)
    (hp : ¬ p a) (t : List α) : (s ++ t).takeWhile p = s.takeWhile p := by
  rw [takeWhile_append, if_neg]
  intro h
  have hs : s.takeWhile p = s := ( takeWhile_prefix p).eq_of_length h
  exact hp (mem_takeWhile_imp (hs ▸ ha))

lemma splitKV_eq (line : Bytes) : splitKV line = if (61 : UInt8) ∈ line then
      (trim (line.takeWhile (· ≠ 61)), some (trim (line.dropWhile (· ≠ 61)).tail))
    else (trim line, none) := by
  unfold splitKV
  split_ifs with h
  · cases hd : line.dropWhile (· ≠ 61) with
    | nil =>
      have := dropWhile_eq_nil_iff.mp hd 61 h
      simp at this
    | cons c rest => rfl
  have hd : line.dropWhile (· ≠ 61) = [] :=
    dropWhile_eq_nil_iff.mpr fun c hc => by
      have : c ≠ 61 := fun e => h (e ▸ hc)
      simpa using this
  rw [hd]

lemma setting_eq_some {line : Bytes} (h : setting line = some (key, value)) :
    trim line ≠ [] ∧ (trim line).head? ≠ some 35 ∧ 61 ∈ trim line ∧
      key = trim ((trim line).takeWhile (· ≠ 61)) := by
  simp only [setting] at h
  split at h
  · cases h
  rename_i hne
  rw [not_or] at hne
  rw [splitKV_eq] at h
  by_cases hm : (61 : UInt8) ∈ trim line
  · rw [if_pos hm] at h
    simp only [some.injEq, Prod.mk.injEq] at h
    exact ⟨hne.1, hne.2, hm, h.1.symm⟩
  rw [if_neg hm] at h
  cases h

lemma setting_prefix {l l' : Bytes} (hp : l <+: l')
    (h : setting l = some (key, value)) : ∃ value', setting l' = some (key, value') := by
  obtain ⟨hne, hhash, hmem, rfl⟩ := setting_eq_some h
  obtain ⟨w, hw⟩ := trim_prefix hp hne
  have hhead : (trim l').head? = (trim l).head? := by
    rw [← hw, head?_append_of_ne_nil _ hne]
  have hne' : trim l' ≠ [] := fun e => hne (append_eq_nil_iff.mp (hw.trans e)).1
  have hmem' : (61 : UInt8) ∈ trim l' := hw ▸ mem_append_left _ hmem
  have hkey : (trim l').takeWhile (· ≠ 61) = (trim l).takeWhile (· ≠ 61) := by
    rw [← hw]
    exact takeWhile_append_of_mem hmem (by simp) w
  refine ⟨trim ((trim l').dropWhile (· ≠ 61)).tail, ?_⟩
  simp only [setting]
  rw [if_neg (not_or.mpr ⟨hne', hhead ▸ hhash⟩), splitKV_eq, if_pos hmem', hkey]

lemma visible_pre (content : Bytes) : visible content <+: content := cstr_take_prefix _ _

lemma noUid_visible (h : NoUid content) : NoUid (visible content) := by
  rintro ⟨key, value⟩ hkv
  obtain ⟨l, hl, hs⟩ := mem_filterMap.mp hkv
  obtain ⟨l', hl', hp⟩ := exists_line_of_prefix (visible_pre content) hl
  obtain ⟨value', hs'⟩ := setting_prefix hp hs
  exact h (key, value') (mem_filterMap.mpr ⟨l', hl', hs'⟩)

lemma parseU32_eq (s : Bytes) : parseU32 s = (decimal s).map (· % 2 ^ 32) := by
  simp only [parseU32, decimal]
  split
  · rfl
  · exact decimalWrapFrom_eq 32 s 0

lemma passwdIds_uid (name line : Bytes) :
    (passwdIds name line).map Prod.fst = (uidOf name line).map (· % 2 ^ 32) := by
  simp only [passwdIds, uidOf]
  rcases passwdFields line with _ | ⟨f0, _ | ⟨f1, _ | ⟨f2, _ | ⟨f3, fs⟩⟩⟩⟩
  · rfl
  · rfl
  · rfl
  · rfl
  by_cases hn : f0 = name
  · cases h2 : decimal f2 <;> cases h3 : decimal f3 <;> simp [hn, parseU32_eq, h2, h3]
  · simp [hn]

lemma findSome?_map {β γ : Type*} (f : α → Option β) (g : β → γ) (l : List α) :
    (l.findSome? f).map g = l.findSome? fun a => (f a).map g := by
  induction l with
  | nil => rfl
  | cons a l ih =>
    simp only [findSome?_cons]
    cases f a <;> simp [ih]

/-- The lookup is that of the first line with two numbers, modulo `2 ^ 32`. -/
theorem lookupUserByName_eq {passwd : Bytes} (h : files (str "/etc/passwd") = some passwd) (name : Bytes) :
    (lookupUserByName files name).map Prod.fst =
      ((lines (visible passwd)).findSome? (uidOf name)).map (· % 2 ^ 32) := by
  simp only [lookupUserByName, readSmallFile, h, map_some]
  rw [findSome?_map, findSome?_map]
  exact congrArg (List.findSome? · _) (funext fun l => passwdIds_uid name l)

def settled (content : Bytes) : Service :=
  (settings (visible content)).foldl Service.assign serviceDefaults

lemma settled_userName (content : Bytes) : (settled content).userName =
      ((lastValue (str "user") (settings (visible content))).map (·.take 31)).getD (str "root") := by
  have hset : ∀ (svc : Service) (v : Bytes), (svc.assign (str "user", v)).userName = v.take 31 :=
    fun _ _ => rfl
  have hkeep : ∀ (svc : Service) (kv : Bytes × Bytes), kv.1 ≠ str "user" →
      (svc.assign kv).userName = svc.userName := by
    rintro svc ⟨key, value⟩ hk
    simp only [Service.assign, if_neg hk]
    repeat' split
    all_goals rfl
  exact foldl_lastValue hset hkeep _ _

lemma settled_uid (h : NoUid content) : (settled content).uid = 0 := by
  have hkeep : ∀ kvs : List (Bytes × Bytes), (∀ kv ∈ kvs, kv.1 ≠ str "uid") → ∀ svc : Service,
      (kvs.foldl Service.assign svc).uid = svc.uid := by
    intro kvs
    induction kvs with
    | nil => exact fun _ _ => rfl
    | cons kv kvs ih =>
      intro hkvs svc
      obtain ⟨key, value⟩ := kv
      rw [foldl_cons, ih fun kv hkv => hkvs kv (mem_cons_of_mem _ hkv)]
      have hk : key ≠ str "uid" := hkvs _ mem_cons_self
      simp only [Service.assign, if_neg hk]
      repeat' split
      all_goals rfl
  exact hkeep _ (noUid_visible h) _

lemma loadService_uid
    (hc : files path = some content) (hu : NoUid content) (h : loadService files path = some svc) :
    svc.uid =
      let name := (settled content).userName
      if name ≠ [] ∧ name ≠ str "root" then
        ((lookupUserByName files name).map Prod.fst).getD 0
      else 0 := by
  have hsvc : readSmallFile files path 4096 = some (visible content) := by
    rw [readSmallFile, hc]
    rfl
  simp only [loadService, hsvc] at h
  have hfold : ((lines (visible content)).filterMap setting).foldl Service.assign serviceDefaults =
      settled content := rfl
  rw [hfold] at h
  split at h
  · cases h
  split at h
  · rename_i hn
    rw [if_pos hn]
    split at h
    · rename_i uid gid hl
      cases h
      simp [hl]
    rename_i hl
    cases h
    simp [hl, settled_uid hu]
  rename_i hn
  rw [if_neg hn]
  cases h
  exact settled_uid hu

lemma loadService_uid_eq_zero_iff
    (hc : files path = some content) (hu : NoUid content) (h : loadService files path = some svc) :
    svc.uid = 0 ↔ ¬ Resolves files content := by
  rw [loadService_uid hc hu h, settled_userName]
  cases hv : lastValue (str "user") (settings (visible content)) with
  | none =>
    have : ¬ Resolves files content := by
      rintro ⟨name, -, -, hname, -⟩
      rw [hv] at hname
      cases hname
    simp [this]
  | some name =>
    simp only [map_some, getD_some]
    by_cases hn : name.take 31 ≠ [] ∧ name.take 31 ≠ str "root"
    · rw [if_pos hn]
      cases hp : files (str "/etc/passwd") with
      | none =>
        have hl : lookupUserByName files (name.take 31) = none := by
          simp [lookupUserByName, readSmallFile, hp]
        have : ¬ Resolves files content := by
          rintro ⟨-, passwd, -, -, -, -, hpw, -⟩
          rw [hp] at hpw
          cases hpw
        simp [hl, this]
      | some passwd =>
        rw [lookupUserByName_eq hp]
        cases hf : (lines (visible passwd)).findSome? (uidOf (name.take 31)) with
        | none =>
          have : ¬ Resolves files content := by
            rintro ⟨name', passwd', uid, hname, -, -, hpw, hf', -⟩
            cases hv.symm.trans hname
            cases hp.symm.trans hpw
            cases hf.symm.trans hf'
          simp [this]
        | some uid =>
          have : Resolves files content ↔ ¬ 2 ^ 32 ∣ uid := by
            constructor
            · rintro ⟨name', passwd', uid', hname, -, -, hpw, hf', hd⟩
              cases hv.symm.trans hname
              cases hp.symm.trans hpw
              cases hf.symm.trans hf'
              exact hd
            · exact fun hd => ⟨name, passwd, uid, hv, hn.1, hn.2, hp, hf, hd⟩
          rw [this, not_not, Nat.dvd_iff_mod_eq_zero]
          rfl
    have : ¬ Resolves files content := by
      rintro ⟨name', -, -, hname, h1, h2, -⟩
      cases hv.symm.trans hname
      exact hn ⟨h1, h2⟩
    rw [if_neg hn]
    simp [this]

lemma mem_runServicesFrom {files : ℕ → Files} {i : ℕ} {paths : List Bytes} (h : l ∈ runServicesFrom files k i paths) :
    ∃ svc, loadService (files l.service) l.path = some svc ∧
      launchCommandAs (k l.service) svc.execCmd svc.uid svc.gid = some l.toExec := by
  induction paths generalizing i with
  | nil => cases h
  | cons path paths ih =>
    rcases mem_append.mp h with h | h
    · obtain ⟨e, he, rfl⟩ := map_eq_some_iff.mp (mem_toList.mp h)
      cases hl : loadService (files i) path with
      | none => simp [hl] at he
      | some svc =>
        simp only [hl] at he
        split at he
        · exact ⟨svc, rfl, he⟩
        · cases he
    · exact ih h

lemma mem_start {conf : Files} {files : ℕ → Files} (h : l ∈ start conf files k) (hk : (k l.service).setuid = true) :
    ∃ svc, loadService (files l.service) l.path = some svc ∧ l.uid = svc.uid := by
  obtain ⟨svc, hsvc, hl⟩ := mem_runServicesFrom h
  refine ⟨svc, hsvc, ?_⟩
  simp only [launchCommandAs, hk, if_true] at hl
  split at hl
  · exact (congrArg Exec.uid (some.inj hl)).symm
  · cases hl

/-- In a boot, a service with a user and no uid is executed with uid 0 only for a user whose uid is 0,
just when the user of every such service resolves or has uid 0. -/
theorem service_root_iff (conf : Files) (files : ℕ → Files) (k : ℕ → Answers) (hk : ∀ i, (k i).setuid = true) :
    (∀ l ∈ start conf files k, ∀ content user, files l.service l.path = some content →
      Names content user → l.uid = 0 → HasUidLine (files l.service) user 0) ↔
    ∀ l ∈ start conf files k, ∀ content user, files l.service l.path = some content → Names content user →
        Resolves (files l.service) content ∨ HasUidLine (files l.service) user 0 := by
  refine forall₂_congr fun l hl => forall₂_congr fun content user => forall₂_congr fun hc hn => ?_
  obtain ⟨svc, hsvc, hu⟩ := mem_start hl (hk _)
  rw [hu, loadService_uid_eq_zero_iff hc hn.noUid hsvc]
  tauto

def bobFiles (passwd : Bytes) : Files := fun path =>
  if path = str "/s" then some (str "exec=/bin/job\nuser=bob\n")
  else if path = str "/etc/passwd" then some passwd
  else if path = str "/etc/obelisk/initd.conf" then some (str "services=/s\n")
  else none

def granted : Answers := ⟨true, true, true⟩

theorem service_root_iff_bob :
    start (bobFiles []) (fun _ => bobFiles (str "bob:x:7:7::/:/bin/sh")) (fun _ => granted) =
        [⟨⟨str "/bin/job", 7, 7⟩, 0, str "/s"⟩] ∧
      ∀ l ∈ start (bobFiles []) (fun _ => bobFiles (str "bob:x:7:7::/:/bin/sh")) (fun _ => granted),
        ∀ content user, bobFiles (str "bob:x:7:7::/:/bin/sh") l.path = some content →
          Names content user → l.uid = 0 →
            HasUidLine (bobFiles (str "bob:x:7:7::/:/bin/sh")) user 0 := by
  have hs : start (bobFiles []) (fun _ => bobFiles (str "bob:x:7:7::/:/bin/sh")) (fun _ => granted) =
      [⟨⟨str "/bin/job", 7, 7⟩, 0, str "/s"⟩] := by decide +kernel
  refine ⟨hs, (service_root_iff _ (fun _ => bobFiles (str "bob:x:7:7::/:/bin/sh")) _ fun _ => rfl).mpr ?_⟩
  rw [hs]
  intro l hl content user hc _
  obtain rfl := mem_singleton.mp hl
  obtain rfl : content = str "exec=/bin/job\nuser=bob\n" := by
    simpa [bobFiles] using hc.symm
  exact .inl ⟨str "bob", str "bob:x:7:7::/:/bin/sh", 7, by decide +kernel, by decide +kernel,
    by decide +kernel, by decide +kernel, by decide +kernel, by decide⟩

theorem unknown_user_is_root :
    ∃ l ∈ start (bobFiles []) (fun _ => bobFiles (str "root:x:0:0::/:/bin/sh")) (fun _ => granted),
      Names (str "exec=/bin/job\nuser=bob\n") (str "bob") ∧
      bobFiles (str "root:x:0:0::/:/bin/sh") l.path = some (str "exec=/bin/job\nuser=bob\n") ∧
      l.uid = 0 ∧ ¬ HasUidLine (bobFiles (str "root:x:0:0::/:/bin/sh")) (str "bob") 0 :=
  ⟨⟨⟨str "/bin/job", 0, 0⟩, 0, str "/s"⟩, by decide +kernel, by decide +kernel, by decide +kernel,
    by decide +kernel, by decide +kernel⟩

end Obelisk.Initd
