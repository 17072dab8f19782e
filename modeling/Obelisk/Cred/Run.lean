import Obelisk.Cred.Model

/-!
# What sequences of credential calls can reach

* **`credRun_within`**: a process none of whose user ids is `0` never gets an id from elsewhere.
* **`fsuid_follows_iff`**: the calls after which `fsuid` is still one of the process's user ids.
-/

namespace Obelisk

open KLib Cred

variable {eid id rid : Id32} {d : Cred} {r : Option Ids}
variable {c : Cred}

namespace Ids

variable {a b c : Ids}

def Has (c : Ids) (id : Id32) : Prop := id = c.real ∨ id = c.eff ∨ id = c.saved

lemma credMatch_iff (c : Ids) (id : Id32) : c.credMatch id = true ↔ c.Has id := by
  simp [credMatch, beq_iff_eq, or_assoc, Has, @eq_comm _ id]

lemma refuses_eq_false (c : Ids) (ids : List Id32) (root : Bool) :
    c.refuses root ids = false ↔ root = true ∨ ∀ id ∈ ids, id = idNone ∨ c.Has id := by
  cases root <;> simp [refuses, ← credMatch_iff, or_iff_not_imp_left]

/-- The ids `b` come from the ids `a`: the file system id may also be the old one. -/
structure Within (a b : Ids) : Prop where
  real : a.Has b.real
  eff : a.Has b.eff
  saved : a.Has b.saved
  fs : b.fs = a.fs ∨ a.Has b.fs

lemma Within.refl (a : Ids) : a.Within a := ⟨.inl rfl, .inr (.inl rfl), .inr (.inr rfl), .inl rfl⟩

lemma Within.has (h : a.Within b) (hid : b.Has id) : a.Has id := by
  rcases hid with rfl | rfl | rfl
  · exact h.real
  · exact h.eff
  · exact h.saved

lemma Within.trans (h : a.Within b) (h' : b.Within c) : a.Within c where
  real := h.has h'.real
  eff := h.has h'.eff
  saved := h.has h'.saved
  fs := h'.fs.elim (fun e => e ▸ h.fs) fun e => .inr (h.has e)

lemma within_set (h : a.set false id = some b) : a.Within b := by
  have hid : a.Has id ∧ b = { a with eff := id, fs := id } := by
    simp only [set, Bool.false_eq_true, if_false] at h
    split_ifs at h with hm
    exact ⟨(credMatch_iff ..).mp (by simpa using hm), (Option.some.inj h).symm⟩
  obtain ⟨hid, rfl⟩ := hid
  exact ⟨.inl rfl, hid, .inr (.inr rfl), .inr hid⟩

lemma assign_eq (a : Ids) (rid eid : Id32) : a.assign rid eid =
    ⟨if rid = idNone then a.real else rid, if eid = idNone then a.eff else eid, a.saved,
      if eid = idNone then a.fs else eid⟩ := by
  by_cases hr : rid = idNone <;> by_cases he : eid = idNone <;> simp [assign, hr, he]

lemma within_assign (hr : rid = idNone ∨ a.Has rid)
    (he : eid = idNone ∨ a.Has eid) : a.Within (a.assign rid eid) := by
  rw [assign_eq]
  refine ⟨?_, ?_, .inr (.inr rfl), ?_⟩ <;> dsimp only <;> split_ifs with h
  · exact .inl rfl
  · exact hr.resolve_left h
  · exact .inr (.inl rfl)
  · exact he.resolve_left h
  · exact .inl rfl
  · exact .inr (he.resolve_left h)

lemma within_setre (h : a.setre false rid eid = some b) : a.Within b := by
  unfold setre at h
  split_ifs at h with hp
  cases h
  have hp := ((refuses_eq_false ..).mp (Bool.eq_false_iff.mpr hp)).resolve_left (by simp)
  have hw := within_assign (hp rid (by simp)) (hp eid (by simp))
  exact ⟨hw.real, hw.eff, hw.eff, hw.fs⟩

lemma within_setres {sid : Id32} (h : a.setres false rid eid sid = some b) : a.Within b := by
  unfold setres at h
  split_ifs at h with hp hs
  all_goals
    cases h
    have hp := ((refuses_eq_false ..).mp (Bool.eq_false_iff.mpr hp)).resolve_left (by simp)
    have hw := within_assign (hp rid (by simp)) (hp eid (by simp))
  · exact ⟨hw.real, hw.eff, (hp sid (by simp)).resolve_left (by simpa using hs), hw.fs⟩
  · exact hw

lemma within_setfs (a : Ids) (id : Id32) : a.Within (a.setfs false id) := by
  unfold setfs
  split_ifs with h
  · have hid : a.Has id := (credMatch_iff ..).mp (by simpa using h)
    exact ⟨.inl rfl, .inr (.inl rfl), .inr (.inr rfl), .inr hid⟩
  · exact .refl a

end Ids

namespace Cred

def Within (c d : Cred) : Prop := c.user.Within d.user ∧ c.group.Within d.group

lemma Within.refl (c : Cred) : c.Within c := ⟨.refl _, .refl _⟩

lemma Within.trans {e : Cred} (h : c.Within d) (h' : d.Within e) : c.Within e :=
  ⟨h.1.trans h'.1, h.2.trans h'.2⟩

lemma within_storeUser (h : ∀ u, r = some u → c.user.Within u) : c.Within (c.storeUser r).2 := by
  cases r with
  | none => exact .refl c
  | some u => exact ⟨h u rfl, .refl _⟩

lemma within_storeGroup (h : ∀ g, r = some g → c.group.Within g) :
    c.Within (c.storeGroup r).2 := by
  cases r with
  | none => exact .refl c
  | some g => exact ⟨.refl _, h g rfl⟩

lemma within_exec (h : c.root = false) (call : CredCall) : c.Within (call.exec c).2 := by
  cases call with
  | setuid uid => exact within_storeUser fun u hu => Ids.within_set (h ▸ hu)
  | setgid gid => exact within_storeGroup fun u hu => Ids.within_set (h ▸ hu)
  | setreuid ruid euid => exact within_storeUser fun u hu => Ids.within_setre (h ▸ hu)
  | setregid rgid egid => exact within_storeGroup fun u hu => Ids.within_setre (h ▸ hu)
  | setresuid ruid euid suid => exact within_storeUser fun u hu => Ids.within_setres (h ▸ hu)
  | setresgid rgid egid sgid => exact within_storeGroup fun u hu => Ids.within_setres (h ▸ hu)
  | setfsuid fsuid =>
    have hw := Ids.within_setfs c.user fsuid
    exact ⟨by rwa [← h] at hw, .refl _⟩
  | setfsgid fsgid =>
    have hw := Ids.within_setfs c.group fsgid
    exact ⟨.refl _, by rwa [← h] at hw⟩

lemma Within.root_eq_false (h : c.Within d) (h0 : ¬ c.user.Has 0) : d.root = false := by
  refine beq_eq_false_iff_ne.mpr fun he => h0 ?_
  have := h.1.eff
  rwa [show d.user.eff = 0 from he] at this

end Cred

lemma credRun_within (h0 : ¬ c.user.Has 0) (calls : List CredCall) : c.Within (credRun calls c) :=
  runOps_inv (fun d => c.Within d)
    (fun call _ hd => hd.trans (within_exec (hd.root_eq_false h0) call)) calls (.refl c)

/-- **No privilege regain.** From credentials whose user ids are all non-zero, whatever calls are
made with whatever arguments, every id comes from the starting ids of its kind, and the effective
user id is never `0`. -/
theorem credRun_no_regain (c : Cred) (hr : c.uid ≠ 0) (he : c.euid ≠ 0) (hs : c.suid ≠ 0) (calls : List CredCall) :
    let d := credRun calls c
    let uids := [c.uid, c.euid, c.suid]
    let gids := [c.gid, c.egid, c.sgid]
    (d.uid ∈ uids ∧ d.euid ∈ uids ∧ d.suid ∈ uids) ∧ (d.gid ∈ gids ∧ d.egid ∈ gids ∧ d.sgid ∈ gids) ∧
      (d.fsuid = c.fsuid ∨ d.fsuid ∈ uids) ∧ (d.fsgid = c.fsgid ∨ d.fsgid ∈ gids) ∧ d.euid ≠ 0 := by
  intro d uids gids
  have h0 : ¬ c.user.Has 0 := fun h =>
    h.elim (fun e => hr e.symm) fun h => h.elim (fun e => he e.symm) fun e => hs e.symm
  obtain ⟨hu, hg⟩ := credRun_within h0 calls
  have huids : ∀ id, c.user.Has id → id ∈ uids := fun id h => by simpa [uids, Ids.Has, user] using h
  have hgids : ∀ id, c.group.Has id → id ∈ gids := fun id h => by simpa [gids, Ids.Has, group] using h
  refine ⟨⟨huids _ hu.real, huids _ hu.eff, huids _ hu.saved⟩,
    ⟨hgids _ hg.real, hgids _ hg.eff, hgids _ hg.saved⟩, hu.fs.imp_right (huids _),
    hg.fs.imp_right (hgids _), ?_⟩
  simpa [root] using Cred.Within.root_eq_false ⟨hu, hg⟩ h0

theorem credRun_no_regain_small : let c : Cred := ⟨5, 6, 7, 6, 1, 2, 3, 2⟩
    (credRun [.setreuid 7 5, .setresgid idNone 3 1, .setuid 0] c).euid ≠ 0 :=
  (credRun_no_regain ⟨5, 6, 7, 6, 1, 2, 3, 2⟩ (by decide) (by decide) (by decide)
    [.setreuid 7 5, .setresgid idNone 3 1, .setuid 0]).2.2.2.2

def Cred.Follows (c : Cred) : Prop := c.user.Has c.fsuid

/-- The calls that keep `fsuid` among the process's user ids: a call that changes `uid` or `suid`
and not `euid` does not take away the id that `fsuid` is, and a privileged `sys_setfsuid` asks for
one of the process's ids. -/
def CredCall.KeepsFs : CredCall → Cred → Prop
  | setreuid ruid euid, c => c.user.refuses c.root [ruid, euid] = false → euid = idNone →
      c.fsuid = c.euid ∨ c.fsuid = if ruid = idNone then c.uid else ruid
  | setresuid ruid euid suid, c => c.user.refuses c.root [ruid, euid, suid] = false →
      euid = idNone → c.fsuid = c.euid ∨ c.fsuid = (if ruid = idNone then c.uid else ruid) ∨
        c.fsuid = if suid = idNone then c.suid else suid
  | setfsuid fsuid, c => c.euid = 0 → c.user.Has fsuid
  | _, _ => True

instance (c : Ids) (id : Id32) : Decidable (c.Has id) := by unfold Ids.Has; infer_instance

instance (call : CredCall) (c : Cred) : Decidable (call.KeepsFs c) := by
  cases call <;> unfold CredCall.KeepsFs <;> infer_instance

lemma follows_setuid (h : c.Follows) (uid : Id32) : (sysSetuid uid c).2.Follows := by
  unfold sysSetuid Ids.set
  split_ifs
  · exact .inl rfl
  · exact h
  · exact .inr (.inl rfl)

lemma follows_setreuid_iff (h : c.Follows) (ruid euid : Id32) :
    (sysSetreuid ruid euid c).2.Follows ↔ CredCall.KeepsFs (.setreuid ruid euid) c := by
  unfold sysSetreuid Ids.setre
  dsimp only [CredCall.KeepsFs]
  cases hp : c.user.refuses c.root [ruid, euid] with
  | true => simpa [storeUser] using h
  | false =>
    rw [if_neg Bool.false_ne_true, Ids.assign_eq]
    simp only [forall_const]
    by_cases he : euid = idNone
    · simp only [he, storeUser, Cred.Follows, Ids.Has, setUser, user, if_true, forall_const]
      tauto
    · simp [he, storeUser, Cred.Follows, Ids.Has, setUser, user]

lemma follows_setresuid_iff (h : c.Follows) (ruid euid suid : Id32) :
    (sysSetresuid ruid euid suid c).2.Follows ↔ CredCall.KeepsFs (.setresuid ruid euid suid) c := by
  unfold sysSetresuid Ids.setres
  dsimp only [CredCall.KeepsFs]
  cases hp : c.user.refuses c.root [ruid, euid, suid] with
  | true => simpa [storeUser] using h
  | false =>
    rw [if_neg Bool.false_ne_true, Ids.assign_eq]
    simp only [forall_const]
    by_cases he : euid = idNone
    · by_cases hs : suid = idNone <;>
        simp only [he, hs, storeUser, Cred.Follows, Ids.Has, setUser, user,
          if_true, if_false, bne_self_eq_false, bne_iff_ne, ne_eq, not_false_eq_true,
          Bool.false_eq_true, forall_const] <;> tauto
    by_cases hs : suid = idNone <;>
      simp [he, hs, storeUser, Cred.Follows, Ids.Has, setUser, user]

lemma follows_setfsuid_iff (h : c.Follows) (fsuid : Id32) :
    (sysSetfsuid fsuid c).2.Follows ↔ CredCall.KeepsFs (.setfsuid fsuid) c := by
  unfold sysSetfsuid Ids.setfs
  dsimp only [CredCall.KeepsFs]
  have hset : (c.setUser { c.user with fs := fsuid }).Follows ↔ c.user.Has fsuid := .rfl
  rw [← Ids.credMatch_iff] at hset ⊢
  cases hm : c.user.credMatch fsuid with
  | true => simpa [hm] using hset
  | false =>
    by_cases h0 : c.euid = 0
    · simpa [root, hm, h0] using hset
    · simpa [root, h0] using (show (c.setUser c.user).Follows from h)

lemma follows_exec_iff (call : CredCall) (c : Cred) (h : c.Follows) :
    (call.exec c).2.Follows ↔ call.KeepsFs c := by
  cases call with
  | setuid uid => exact iff_of_true (follows_setuid h uid) trivial
  | setreuid ruid euid => exact follows_setreuid_iff h ruid euid
  | setresuid ruid euid suid => exact follows_setresuid_iff h ruid euid suid
  | setfsuid fsuid => exact follows_setfsuid_iff h fsuid
  | setgid gid =>
    refine iff_of_true ?_ trivial
    change (sysSetgid gid c).2.Follows
    unfold sysSetgid
    cases c.group.set c.root gid <;> exact h
  | setregid rgid egid =>
    refine iff_of_true ?_ trivial
    change (sysSetregid rgid egid c).2.Follows
    unfold sysSetregid
    cases c.group.setre c.root rgid egid <;> exact h
  | setresgid rgid egid sgid =>
    refine iff_of_true ?_ trivial
    change (sysSetresgid rgid egid sgid c).2.Follows
    unfold sysSetresgid
    cases c.group.setres c.root rgid egid sgid <;> exact h
  | setfsgid fsgid => exact iff_of_true h trivial

/-- **File system identity.** From credentials whose `fsuid` is the effective user id, `fsuid` is
one of the process's user ids in every state reached, just when every call meets the condition
`KeepsFs` in the state in which it is made. -/
theorem fsuid_follows_iff (c : Cred) (hf : c.fsuid = c.euid) (calls : List CredCall) :
    (∀ pre, pre <+: calls → let d := credRun pre c
      d.fsuid = d.uid ∨ d.fsuid = d.euid ∨ d.fsuid = d.suid) ↔
      Along CredCall.exec CredCall.KeepsFs calls c :=
  forall_prefix_iff_along Cred.Follows (fun call d hd => follows_exec_iff call d hd) calls (.inr (.inl hf))

theorem fsuid_follows_iff_small : let c : Cred := ⟨5, 5, 0, 5, 5, 5, 5, 5⟩
    ∀ pre, pre <+: [CredCall.setresuid idNone idNone 5, .setfsuid 0] → let d := credRun pre c
      d.fsuid = d.uid ∨ d.fsuid = d.euid ∨ d.fsuid = d.suid :=
  (fsuid_follows_iff ⟨5, 5, 0, 5, 5, 5, 5, 5⟩ rfl [.setresuid idNone idNone 5, .setfsuid 0]).mpr
    ⟨by decide, by decide, trivial⟩

/-- A process with real and effective id 5 and saved id 0 takes the saved id as file system id and
then replaces the saved id: it keeps `fsuid` 0 although none of its ids is 0. -/
theorem fsuid_keeps_zero :
    let d := credRun [.setfsuid 0, .setresuid idNone idNone 5] ⟨5, 5, 0, 5, 5, 5, 5, 5⟩
    d.uid = 5 ∧ d.euid = 5 ∧ d.suid = 5 ∧ d.fsuid = 0 := by
  decide

end Obelisk
