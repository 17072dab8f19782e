import Obelisk.Proc.Model

/-!
# The process tree and the process identifiers

What the calls do to the processes, whatever happens to their address spaces and files.
-/

namespace Obelisk

open KLib Function List Option Finmap

variable {pid q : ℕ} {f : Process → Process}

def addChild (c : ℕ) (q : Process) : Process := { q with children := c :: q.children }

namespace Procs

variable {P P' : Procs} {p c z : ℕ} {x y : Process}

lemma get_of_lookup (h : P.table.lookup p = some x) : P.get p = x := by
  rw [get, h, getD_some]

lemma runnable_iff : P.runnable p = true ↔ ∃ x, P.table.lookup p = some x ∧
    x.state ≠ .created ∧ x.state ≠ .zombie ∧ x.state ≠ .dead := by
  cases h : P.table.lookup p with
  | none => simp [runnable, h]
  | some x => simp [runnable, h, and_assoc]

/-- The process is under its own identifier in `pid_table`, and its list of children is right. -/
structure Node (P : Procs) (p : ℕ) (x : Process) : Prop where
  ne_zero : p ≠ 0
  pid_lt : 0 < x.pid ∧ x.pid < pidMax
  pidTable : P.pidTable x.pid = p
  state : x.state ≠ .created
  child : ∀ c ∈ x.children, ∃ y, P.table.lookup c = some y ∧ y.parent = p ∧ y.kernel = false
  nodup : x.children.Nodup

/-- The processes form a tree, and pids identify them. -/
structure Tree (P : Procs) : Prop where
  node : ∀ {p x}, P.table.lookup p = some x → Node P p x
  find : ∀ pid, P.pidTable pid ≠ 0 → ∃ x, P.table.lookup (P.pidTable pid) = some x ∧ x.pid = pid
  nextPid : 0 < P.nextPid ∧ P.nextPid ≤ pidMax

lemma Tree.not_mem_zero (h : Tree P) : 0 ∉ P.table := by
  intro h0
  obtain ⟨x, hx⟩ := mem_iff.mp h0
  exact (h.node hx).ne_zero rfl

lemma Tree.pid_inj (h : Tree P) (hp : P.table.lookup p = some x)
    (hq : P.table.lookup q = some y) (hpid : x.pid = y.pid) : p = q := by
  rw [← (h.node hp).pidTable, ← (h.node hq).pidTable, hpid]

def withNext (P : Procs) (n : ℕ) : Procs := { P with nextPid := n }

lemma Tree.withNext (h : Tree P) {n : ℕ} (hn : 0 < n ∧ n ≤ pidMax) : Tree (P.withNext n) :=
  ⟨fun hp => { h.node hp with }, h.find, hn⟩

lemma allocPid_spec (h : Tree P) (ha : P.allocPid = some (pid, P')) :
    P' = P.withNext (pid + 1) ∧ P.pidTable pid = 0 ∧ 0 < pid ∧ pid < pidMax := by
  have hn := h.nextPid
  dsimp only [allocPid] at ha
  split at ha
  · next pid' hfind =>
    cases ha
    have hmem := mem_range'_1.mp (mem_of_find?_eq_some hfind)
    exact ⟨rfl, by simpa using find?_some hfind, by omega, by omega⟩
  split at ha
  · next pid' hfind =>
    cases ha
    have hmem := mem_range'_1.mp (mem_of_find?_eq_some hfind)
    exact ⟨rfl, by simpa using find?_some hfind, by omega, by omega⟩
  · cases ha

lemma freePid_free (h : P.pidTable pid = 0) : P.freePid pid = P := by
  rw [freePid]
  split_ifs
  · rw [← h, update_eq_self]
  · rfl

/-- `P'` is `P` with the new process `c`, whose data are `x`. Its parent may be an address where
there is no process any more, or even `c` itself, if that address has been used before. -/
structure Spawn (P P' : Procs) (c : ℕ) (x : Process) : Prop where
  ne_zero : c ≠ 0
  fresh : c ∉ P.table
  pid_pos : 0 < x.pid
  pid_lt : x.pid < pidMax
  pid_free : P.pidTable x.pid = 0
  kernel : x.parent ≠ 0 → x.kernel = false
  state : x.state = .ready
  children : x.children = if x.parent = c then [c] else []
  table : P'.table = (modify x.parent (addChild c) P.table).insert c x
  pidTable : P'.pidTable = update P.pidTable x.pid c
  nextPid : P'.nextPid = x.pid + 1

lemma Spawn.lookup_self (h : Spawn P P' c x) : P'.table.lookup c = some x := by
  rw [h.table, lookup_insert]

lemma Spawn.lookup_ne (h : Spawn P P' c x) (hq : q ≠ c) : P'.table.lookup q =
      (P.table.lookup q).map fun y => if q = x.parent then addChild c y else y := by
  rw [h.table, lookup_insert_of_ne _ hq, lookup_modify]
  split_ifs with hqp
  · rw [hqp]
  · rw [Option.map_id']

lemma Spawn.cases (h : Spawn P P' c x) (hq : P'.table.lookup q = some y) :
    q = c ∧ y = x ∨ q ≠ c ∧ ∃ y', P.table.lookup q = some y' ∧
      y = if q = x.parent then addChild c y' else y' := by
  by_cases hqc : q = c
  · left
    rw [hqc, h.lookup_self] at hq
    exact ⟨hqc, (some.inj hq).symm⟩
  right
  rw [h.lookup_ne hqc] at hq
  obtain ⟨y', hy', rfl⟩ := map_eq_some_iff.mp hq
  exact ⟨hqc, y', hy', rfl⟩

lemma Spawn.lookup_old (h : Spawn P P' c x) (hq : P.table.lookup q = some y) :
    q ≠ c ∧ P'.table.lookup q = some (if q = x.parent then addChild c y else y) := by
  have hqc : q ≠ c := by
    rintro rfl
    exact h.fresh (mem_of_lookup_eq_some hq)
  rw [h.lookup_ne hqc, hq]
  exact ⟨hqc, rfl⟩

lemma Tree.spawn (h : Tree P) (hs : Spawn P P' c x) : Tree P' := by
  have hpid_ne : ∀ q y, P.table.lookup q = some y → y.pid ≠ x.pid := by
    intro q y hq heq
    have hq0 := (h.node hq).ne_zero
    rw [← (h.node hq).pidTable, heq, hs.pid_free] at hq0
    exact hq0 rfl
  refine ⟨fun {q y} hq => ?_, fun pid hne => ?_, ?_⟩
  · obtain ⟨rfl, rfl⟩ | ⟨_, y', hy', rfl⟩ := hs.cases hq
    · refine ⟨hs.ne_zero, ⟨hs.pid_pos, hs.pid_lt⟩, by rw [hs.pidTable, update_self], by rw [hs.state]; decide, ?_, ?_⟩
      · intro d hd
        rw [hs.children] at hd
        split_ifs at hd with hself
        · rw [mem_singleton.mp hd]
          exact ⟨y, hs.lookup_self, hself, hs.kernel (hself ▸ hs.ne_zero)⟩
        · cases hd
      rw [hs.children]
      split_ifs
      · exact nodup_singleton _
      · exact nodup_nil
    obtain ⟨h0, hlt, htab, hst, hch, hnd⟩ := h.node hy'
    have htab' : P'.pidTable y'.pid = q := by
      rw [hs.pidTable, update_of_ne (hpid_ne q y' hy'), htab]
    have hold : ∀ d ∈ y'.children, ∃ z, P'.table.lookup d = some z ∧ z.parent = q ∧ z.kernel = false := by
      intro d hd
      obtain ⟨z, hz, hpar, hker⟩ := hch d hd
      refine ⟨_, (hs.lookup_old hz).2, ?_⟩
      split_ifs <;> exact ⟨hpar, hker⟩
    split_ifs with hqp
    · refine ⟨h0, hlt, htab', hst, ?_, nodup_cons.mpr ⟨fun hc => ?_, hnd⟩⟩
      · exact forall_mem_cons.mpr ⟨⟨x, hs.lookup_self, hqp.symm, hs.kernel (hqp ▸ h0)⟩, hold⟩
      obtain ⟨z, hz, _⟩ := hch c hc
      exact hs.fresh (mem_of_lookup_eq_some hz)
    · exact ⟨h0, hlt, htab', hst, hold, hnd⟩
  · rw [hs.pidTable] at hne ⊢
    by_cases heq : pid = x.pid
    · rw [heq, update_self]
      exact ⟨x, hs.lookup_self, rfl⟩
    rw [update_of_ne heq] at hne ⊢
    obtain ⟨y, hy, hypid⟩ := h.find pid hne
    refine ⟨_, (hs.lookup_old hy).2, ?_⟩
    split_ifs <;> exact hypid
  · rw [hs.nextPid]
    exact ⟨Nat.succ_pos _, hs.pid_lt⟩

lemma Tree.upd (h : Tree P) (hpid : ∀ x, (f x).pid = x.pid) (hker : ∀ x, (f x).kernel = x.kernel)
    (hpar : ∀ x, (f x).parent = x.parent) (hch : ∀ x, (f x).children = x.children)
    (hst : ∀ x, x.state ≠ .created → (f x).state ≠ .created) : Tree (P.upd p f) := by
  have hcases : ∀ {q y}, (P.upd p f).table.lookup q = some y →
      ∃ y', P.table.lookup q = some y' ∧ (y = y' ∨ y = f y') := by
    intro q y hq
    rw [Procs.upd, lookup_modify] at hq
    split_ifs at hq with hqp
    · obtain ⟨y', hy', rfl⟩ := map_eq_some_iff.mp hq
      exact ⟨y', hqp ▸ hy', .inr rfl⟩
    · exact ⟨y, hq, .inl rfl⟩
  have hfwd : ∀ {q y}, P.table.lookup q = some y →
      ∃ y', (P.upd p f).table.lookup q = some y' ∧ (y' = y ∨ y' = f y) := by
    intro q y hq
    rw [Procs.upd, lookup_modify]
    split_ifs with hqp
    · rw [← hqp, hq]
      exact ⟨f y, rfl, .inr rfl⟩
    · exact ⟨y, hq, .inl rfl⟩
  refine ⟨fun {q y} hq => ?_, fun pid hne => ?_, h.nextPid⟩
  · obtain ⟨y', hy', hyy⟩ := hcases hq
    obtain ⟨h0, hlt, htab, hst', hch', hnd⟩ := h.node hy'
    have hold : ∀ d ∈ y'.children,
        ∃ z, (P.upd p f).table.lookup d = some z ∧ z.parent = q ∧ z.kernel = false := by
      intro d hd
      obtain ⟨z, hz, hzp, hzk⟩ := hch' d hd
      obtain ⟨z', hz', rfl | rfl⟩ := hfwd hz
      · exact ⟨z', hz', hzp, hzk⟩
      · exact ⟨f z, hz', (hpar z).trans hzp, (hker z).trans hzk⟩
    obtain rfl | rfl := hyy
    · exact ⟨h0, hlt, htab, hst', hold, hnd⟩
    · exact ⟨h0, (hpid y').symm ▸ hlt, (hpid y').symm ▸ htab, hst y' hst', (hch y').symm ▸ hold, (hch y').symm ▸ hnd⟩
  · obtain ⟨y, hy, hypid⟩ := h.find pid hne
    obtain ⟨y', hy', rfl | rfl⟩ := hfwd hy
    · exact ⟨y', hy', hypid⟩
    · exact ⟨f y, hy', (hpid y).trans hypid⟩

lemma unlink_table (hz : P.table.lookup z = some x) : (P.unlink z).table =
    (modify x.parent (fun q => { q with children := q.children.erase z }) P.table).erase z := by
  rw [unlink, get_of_lookup hz, freePid]
  split_ifs <;> rfl

lemma unlink_nextPid : (P.unlink z).nextPid = P.nextPid := by
  rw [unlink, freePid]
  split_ifs <;> rfl

lemma Tree.unlink_pidTable (h : Tree P) (hz : P.table.lookup z = some x) :
    (P.unlink z).pidTable = update P.pidTable x.pid 0 := by
  rw [unlink, get_of_lookup hz, freePid, if_pos (h.node hz).pid_lt]

lemma unlink_lookup (hz : P.table.lookup z = some x) (hq : q ≠ z) :
    (P.unlink z).table.lookup q = (P.table.lookup q).map fun y =>
      if q = x.parent then { y with children := y.children.erase z } else y := by
  rw [unlink_table hz, lookup_erase_ne hq, lookup_modify]
  split_ifs with hqp
  · rw [hqp]
  · rw [Option.map_id']

lemma unlink_cases (hz : P.table.lookup z = some x)
    (hq : (P.unlink z).table.lookup q = some y) : q ≠ z ∧ ∃ y', P.table.lookup q = some y' ∧
      y = if q = x.parent then { y' with children := y'.children.erase z } else y' := by
  by_cases hqz : q = z
  · rw [hqz, unlink_table hz, lookup_erase] at hq
    cases hq
  rw [unlink_lookup hz hqz] at hq
  obtain ⟨y', hy', rfl⟩ := map_eq_some_iff.mp hq
  exact ⟨hqz, y', hy', rfl⟩

lemma Tree.unlink (h : Tree P) (hz : P.table.lookup z = some x) : Tree (P.unlink z) := by
  have hsame : ∀ {q y}, (P.unlink z).table.lookup q = some y → q ≠ z ∧
      ∃ y', P.table.lookup q = some y' ∧ y.pid = y'.pid ∧ y.state = y'.state ∧
        y.children = y'.children.erase z := by
    intro q y hq
    obtain ⟨hqz, y', hy', rfl⟩ := unlink_cases hz hq
    refine ⟨hqz, y', hy', ?_⟩
    split_ifs with hqp
    · exact ⟨rfl, rfl, rfl⟩
    refine ⟨rfl, rfl, (erase_of_not_mem fun hmem => ?_).symm⟩
    obtain ⟨x', hx', hpar, _⟩ := (h.node hy').child z hmem
    rw [hz] at hx'
    exact hqp (some.inj hx' ▸ hpar.symm)
  have hfwd : ∀ {q y}, P.table.lookup q = some y → q ≠ z → ∃ y', (P.unlink z).table.lookup q =
      some y' ∧ y'.pid = y.pid ∧ y'.parent = y.parent ∧ y'.kernel = y.kernel := by
    intro q y hq hqz
    rw [unlink_lookup hz hqz, hq]
    refine ⟨_, rfl, ?_⟩
    split_ifs <;> exact ⟨rfl, rfl, rfl⟩
  refine ⟨fun {q y} hq => ?_, fun pid hne => ?_, unlink_nextPid (P := P) ▸ h.nextPid⟩
  · obtain ⟨hqz, y', hy', hpid, hst, hch⟩ := hsame hq
    obtain ⟨h0, hlt, htab, hst', hch', hnd⟩ := h.node hy'
    have hne : y'.pid ≠ x.pid := fun heq => hqz (h.pid_inj hy' hz heq)
    refine ⟨h0, hpid ▸ hlt, by rw [h.unlink_pidTable hz, hpid, update_of_ne hne, htab], hst ▸ hst', fun d hd => ?_,
      hch ▸ hnd.erase z⟩
    rw [hch, hnd.mem_erase_iff] at hd
    obtain ⟨w, hw, hpar, hker⟩ := hch' d hd.2
    obtain ⟨w', hw', _, hpar', hker'⟩ := hfwd hw hd.1
    exact ⟨w', hw', hpar'.trans hpar, hker'.trans hker⟩
  · rw [h.unlink_pidTable hz] at hne ⊢
    by_cases heq : pid = x.pid
    · rw [heq, update_self] at hne
      exact absurd rfl hne
    rw [update_of_ne heq] at hne ⊢
    obtain ⟨y, hy, hypid⟩ := h.find pid hne
    have hpz : P.pidTable pid ≠ z := by
      intro hpz
      rw [hpz, hz] at hy
      exact heq (hypid ▸ some.inj hy ▸ rfl)
    obtain ⟨y', hy', hpid', _⟩ := hfwd hy hpz
    exact ⟨y', hy', hpid'.trans hypid⟩

section Total

variable {w : Process → ℕ} (hw : ∀ x l, w { x with children := l } = w x)

include hw

lemma Spawn.total (h : Spawn P P' c x) : total P'.table w = total P.table w + w x := by
  have hfresh : c ∉ modify x.parent (addChild c) P.table := by
    intro hmem
    rw [← lookup_isSome, lookup_modify] at hmem
    have hnone : P.table.lookup c = none := lookup_eq_none.mpr h.fresh
    split_ifs at hmem with hcp
    · rw [← hcp, hnone] at hmem
      cases hmem
    rw [hnone] at hmem
    cases hmem
  rw [h.table, total_insert_new hfresh, total_modify (f := addChild c) fun y _ => hw y _]

lemma unlink_total (hz : P.table.lookup z = some x) :
    total (P.unlink z).table w + w x = total P.table w := by
  have hlook : ∃ x', (modify x.parent (fun q => { q with children := q.children.erase z })
      P.table).lookup z = some x' ∧ w x' = w x := by
    rw [lookup_modify]
    split_ifs with hzp
    · rw [← hzp, hz]
      exact ⟨_, rfl, hw x _⟩
    · exact ⟨x, hz, rfl⟩
  obtain ⟨x', hx', hwx⟩ := hlook
  rw [unlink_table hz, ← hwx, total_erase hx', total_modify fun y _ => hw y _]

end Total

lemma upd_total {w : Process → ℕ} (hp : P.table.lookup p = some x) :
    total (P.upd p f).table w + w x = total P.table w + w (f x) := by
  rw [upd, modify_some hp, total_insert hp]

lemma upd_total_eq {w : Process → ℕ} (hw : ∀ x, w (f x) = w x) :
    total (P.upd p f).table w = total P.table w :=
  total_modify fun x _ => hw x

lemma zombieChild_spec (h : Tree P) {pid : ℤ} (hz : P.zombieChild p pid = some z) :
    ∃ x, P.table.lookup z = some x ∧ x.kernel = false ∧ x.parent = p ∧ x.state = .zombie := by
  have hmem := mem_of_find?_eq_some hz
  have hstate := find?_some hz
  rw [get] at hmem
  cases hp : P.table.lookup p with
  | none =>
    rw [hp] at hmem
    cases hmem
  | some y =>
    rw [hp] at hmem
    obtain ⟨x, hx, hpar, hker⟩ := (h.node hp).child z hmem
    rw [get_of_lookup hx] at hstate
    simp only [Bool.and_eq_true, beq_iff_eq] at hstate
    exact ⟨x, hx, hker, hpar, hstate.2⟩

end Procs

end Obelisk
