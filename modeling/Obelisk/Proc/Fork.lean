import Obelisk.Proc.Tree

/-!
# What `do_fork` does

`do_fork` creates a process, frees what it was created with, copies or shares the parent's address
space and files, and undoes everything if that fails.
-/

namespace Obelisk

open KLib Function Option Finmap Procs

def Spaces.mark (U : Finset ℕ) (s : Spaces) : Spaces := { s with victims := s.victims ∪ U }

namespace Procs

variable {P : Procs} {p c : ℕ} {x y : Process} {mm : ℕ}

lemma mem_users : p ∈ P.users mm ↔
    ∃ x, P.table.lookup p = some x ∧ x.mm = mm ∧ x.state ≠ .created := by
  rw [users, Finset.mem_filter, mem_keys, mem_iff]
  constructor
  · rintro ⟨⟨x, hx⟩, hp⟩
    rw [get_of_lookup hx] at hp
    exact ⟨x, hx, hp⟩
  rintro ⟨x, hx, hp⟩
  rw [get_of_lookup hx]
  exact ⟨⟨x, hx⟩, hp⟩

section Link

variable (hc : c ∉ P.table) (hp : P.table.lookup p = some y) (hp0 : p ≠ 0) (hx : x.parent = p)

include hc hp hp0 hx

lemma link_table : (P.link c x).table = (modify p (addChild c) P.table).insert c x := by
  have hpc : p ≠ c := by
    rintro rfl
    exact hc (mem_of_lookup_eq_some hp)
  rw [link, hx, if_neg hp0]
  exact modify_insert_ne hpc

lemma link_lookup_self : (P.link c x).table.lookup c = some x := by
  rw [link_table hc hp hp0 hx, lookup_insert]

lemma link_lookup_parent : (P.link c x).table.lookup p = some (addChild c y) := by
  have hpc : p ≠ c := by
    rintro rfl
    exact hc (mem_of_lookup_eq_some hp)
  rw [link_table hc hp hp0 hx, lookup_insert_of_ne _ hpc, lookup_modify_self, hp, map_some]

lemma link_upd {f : Process → Process} (hpid : (f x).pid = x.pid)
    (hpar : (f x).parent = x.parent) : (P.link c x).upd c f = P.link c (f x) := by
  have htab : ((P.link c x).upd c f).table = (P.link c (f x)).table := by
    rw [upd, modify_some (link_lookup_self hc hp hp0 hx), link_table hc hp hp0 hx,
      link_table hc hp hp0 (hpar.trans hx), insert_insert]
  have hpt : (P.link c (f x)).pidTable = (P.link c x).pidTable := by
    rw [link, link, hpid]
  rw [upd] at htab ⊢
  dsimp only at htab
  rw [htab, ← hpt]
  rfl

lemma link_unlink (hpid : P.pidTable x.pid = 0) (h0 : 0 < x.pid ∧ x.pid < pidMax) :
    (P.link c x).unlink c = P := by
  have hself := link_lookup_self hc hp hp0 hx
  have htab : ((P.link c x).unlink c).table = P.table := by
    rw [unlink_table hself, hx, modify_some (link_lookup_parent hc hp hp0 hx),
      link_table hc hp hp0 hx, modify_some hp]
    apply ext_lookup
    intro q
    rw [lookup_erase_eq]
    split_ifs with hqc
    · rw [hqc, lookup_eq_none.mpr hc]
    rw [lookup_insert_eq]
    split_ifs with hqp
    · rw [hqp, hp, addChild, List.erase_cons_head]
    · rw [lookup_insert_of_ne _ hqc, lookup_insert_of_ne _ hqp]
  have hpt : ((P.link c x).unlink c).pidTable = P.pidTable := by
    rw [unlink, get_of_lookup hself, freePid, if_pos h0]
    dsimp only [link]
    rw [update_idem, ← hpid, update_eq_self]
  have hn : ((P.link c x).unlink c).nextPid = P.nextPid := unlink_nextPid
  cases P
  simp only at htab hpt hn
  exact Procs.ext htab hpt hn

lemma link_get_parent : (P.link c x).get p = addChild c y :=
  get_of_lookup (link_lookup_parent hc hp hp0 hx)

lemma link_reparent (h0 : 0 ∉ P.table) (hcne : c ≠ 0) (hch : x.children = []) :
    ((P.link c x).reparent c p).table = (modify y.parent (addChild c) P.table).insert c
      { x with parent := y.parent, children := if y.parent = c then [c] else [] } := by
  have hpc : p ≠ c := by
    rintro rfl
    exact hc (mem_of_lookup_eq_some hp)
  have hself : (P.link c x).get c = x := get_of_lookup (link_lookup_self hc hp hp0 hx)
  -- the child leaves the list of `p` and gets its new parent
  have hleave : (((P.link c x).upd p fun q => { q with children := q.children.erase c }).upd c
      ({ · with parent := y.parent })).table = P.table.insert c { x with parent := y.parent } := by
    apply ext_lookup
    intro q
    simp only [upd, lookup_modify, link_table hc hp hp0 hx, lookup_insert_eq, hpc, hpc.symm, hp,
      if_true, if_false, map_some, addChild, List.erase_cons_head]
    split_ifs with h1 h2
    · rfl
    · rw [h2, hp]
    · rfl
  have hnew : (P.link c x).reparent c p = if y.parent = 0 then
      ((P.link c x).upd p fun q => { q with children := q.children.erase c }).upd c
        ({ · with parent := y.parent })
      else (((P.link c x).upd p fun q => { q with children := q.children.erase c }).upd c
        ({ · with parent := y.parent })).upd y.parent (addChild c) := by
    rw [reparent, hself, hx, link_get_parent hc hp hp0 hx]
    rfl
  rw [hnew]
  by_cases hpar0 : y.parent = 0
  · have hparc : y.parent ≠ c := fun h => hcne (h ▸ hpar0)
    rw [if_pos hpar0, hleave, if_neg hparc, hpar0, modify_none (lookup_eq_none.mpr h0), hch]
  rw [if_neg hpar0, upd, hleave]
  by_cases hparc : y.parent = c
  · rw [if_pos hparc, hparc, modify_none (lookup_eq_none.mpr hc),
      modify_some (lookup_insert _), insert_insert, addChild, hch]
  · rw [if_neg hparc, modify_insert_ne hparc, hch]

lemma link_users (hst : x.state = .created) : (P.link c x).users mm = P.users mm := by
  ext q
  rw [mem_users, mem_users, link_table hc hp hp0 hx]
  by_cases hqc : q = c
  · rw [hqc, lookup_insert, lookup_eq_none.mpr hc]
    constructor
    · rintro ⟨x', hx', _, hst'⟩
      exact absurd (some.inj hx' ▸ hst) hst'
    rintro ⟨x', hx', _⟩
    cases hx'
  rw [lookup_insert_of_ne _ hqc, lookup_modify]
  split_ifs with hqp
  · rw [hqp, hp]
    constructor
    · rintro ⟨x', hx', h⟩
      exact ⟨y, rfl, by rw [← some.inj hx'] at h; exact h⟩
    rintro ⟨x', hx', h⟩
    exact ⟨_, rfl, by rw [← some.inj hx'] at h; exact h⟩
  · exact .rfl

end Link

end Procs

namespace Files

variable {s : Files} {t : ℕ}

lemma get_of_lookup {T : FdTable} (h : s.tables.lookup t = some T) : s.get t = T := by
  rw [get, h, getD_some]

@[simp] lemma fdTableFree_null (s : Files) : s.fdTableFree 0 = s := rfl

lemma fdTableFree_fresh (h0 : t ≠ 0) (h : t ∉ s.tables) :
    fdTableFree t { s with tables := s.tables.insert t .fresh } = s := by
  have hloop : ∀ (l : List ℕ) (s : Files), l.foldl (fun s i =>
      if (FdTable.fresh.fds i).file = 0 then s
      else (s.putFile (FdTable.fresh.fds i).file).upd t (·.setSlot i ⟨0, 0⟩)) s = s := by
    intro l s
    induction l with
    | nil => rfl
    | cons i l ih => exact ih
  have hcount : FdTable.fresh.refcount - 1 = 0 := rfl
  have hget : ({ s with tables := s.tables.insert t .fresh } : Files).get t = .fresh :=
    get_of_lookup (lookup_insert _)
  simp only [fdTableFree, hget, if_neg h0, hcount, if_true, hloop, erase_insert_new h]

lemma fdTableCreate_cases (a : ℕ) (s : Files) : s.fdTableCreate a = (0, s) ∨ a ≠ 0 ∧ a ∉ s.tables ∧
      s.fdTableCreate a = (a, { s with tables := s.tables.insert a .fresh }) := by
  rw [fdTableCreate]
  split_ifs with h
  · exact .inl rfl
  · exact .inr ⟨fun h0 => h (.inl h0), fun h0 => h (.inr h0), rfl⟩

end Files

namespace Spaces

variable {s : Spaces} {mm : ℕ}

lemma create_cases (a : ℕ) (s : Spaces) : s.create a = (0, s) ∨ a ≠ 0 ∧ a ∉ s.refcount ∧
      s.create a = (a, { s with refcount := s.refcount.insert a 1 }) := by
  rw [create]
  split_ifs with h
  · exact .inl rfl
  · exact .inr ⟨fun h0 => h (.inl h0), fun h0 => h (.inr h0), rfl⟩

lemma destroy_new (hK : kernelAs ∈ s.refcount) (h0 : mm ≠ 0) (h : mm ∉ s.refcount)
    (U : Finset ℕ) : destroy mm U { s with refcount := s.refcount.insert mm 1 } = s.mark U := by
  have hmm : ¬ (mm = 0 ∨ mm = kernelAs) := by
    rintro (rfl | rfl)
    · exact h0 rfl
    · exact h hK
  rw [destroy, if_neg hmm, mark, erase_insert_new h]

end Spaces

def inKernelAs (x : Process) : ℕ := if x.mm = kernelAs ∧ x.kernel = false then 1 else 0

/-- What holds of every state, whatever has happened to the reference counts. -/
structure Kern.Base (k : Kern) : Prop where
  tree : k.procs.Tree
  noSpace : 0 ∉ k.vm.refcount
  /-- The kernel holds a reference to its own address space, besides the user processes in it. -/
  kernel : ∃ c, k.vm.refcount.lookup kernelAs = some c ∧ 1 + total k.procs.table inKernelAs ≤ c

lemma Kern.Base.mem_kernelAs {k : Kern} (hk : k.Base) : kernelAs ∈ k.vm.refcount := by
  obtain ⟨c, hc, _⟩ := hk.kernel
  exact mem_of_lookup_eq_some hc

variable {k : Kern} {p flags : ℕ} {y : Process}

lemma processCreate_cases (hk : k.Base) (cur : ℕ) (a : CreateAns) :
    (∃ n V, (0 < n ∧ n ≤ pidMax) ∧ processCreate cur false a k = (0, ⟨k.procs.withNext n, V, k.io⟩) ∧
      (V = k.vm ∨ ∃ m, m ∉ k.vm.refcount ∧ V = k.vm.mark (k.procs.users m))) ∨
    ∃ pid m t, a.proc ≠ 0 ∧ a.proc ∉ k.procs.table ∧ k.procs.pidTable pid = 0 ∧
      (0 < pid ∧ pid < pidMax) ∧ m ≠ 0 ∧ m ∉ k.vm.refcount ∧ t ≠ 0 ∧ t ∉ k.io.tables ∧
      processCreate cur false a k = (a.proc, ⟨(k.procs.withNext (pid + 1)).link a.proc
            ⟨pid, .created, false, cur, [], m, t, 0⟩,
          { k.vm with refcount := k.vm.refcount.insert m 1 },
          { k.io with tables := k.io.tables.insert t .fresh }⟩) := by
  have hsame : (0, k) = (0, (⟨k.procs.withNext k.procs.nextPid, k.vm, k.io⟩ : Kern)) := rfl
  rw [processCreate]
  by_cases hproc : a.proc = 0 ∨ a.proc ∈ k.procs.table
  · rw [if_pos hproc]
    exact .inl ⟨_, _, hk.tree.nextPid, hsame, .inl rfl⟩
  rw [if_neg hproc]
  cases hpid : k.procs.allocPid with
  | none => exact .inl ⟨_, _, hk.tree.nextPid, hsame, .inl rfl⟩
  | some r =>
    obtain ⟨pid, P⟩ := r
    obtain ⟨rfl, hfree, hpos, hlt⟩ := allocPid_spec hk.tree hpid
    have hback := freePid_free (P := k.procs.withNext (pid + 1)) hfree
    have hn : 0 < pid + 1 ∧ pid + 1 ≤ pidMax := ⟨Nat.succ_pos _, hlt⟩
    dsimp only
    rw [hback]
    obtain hm | ⟨hm0, hm, hcm⟩ := k.vm.create_cases a.mm
    · rw [hm]
      left
      exact ⟨pid + 1, k.vm, hn, by simp, .inl rfl⟩
    rw [hcm]
    have hdrop := Spaces.destroy_new hk.mem_kernelAs hm0 hm (k.procs.users a.mm)
    have husers : (k.procs.withNext (pid + 1)).users a.mm = k.procs.users a.mm := rfl
    obtain ht | ⟨ht0, ht, hct⟩ := k.io.fdTableCreate_cases a.files
    · rw [ht]
      left
      cases a.stack with
      | false => exact ⟨pid + 1, k.vm, hn, by simp, .inl rfl⟩
      | true =>
        refine ⟨pid + 1, _, hn, ?_, .inr ⟨a.mm, hm, rfl⟩⟩
        simp [hm0, hdrop, husers]
    rw [hct]
    cases a.stack with
    | false => exact .inl ⟨pid + 1, k.vm, hn, by simp, .inl rfl⟩
    | true =>
      cases a.cred with
      | false =>
        refine .inl ⟨pid + 1, _, hn, ?_, .inr ⟨a.mm, hm, rfl⟩⟩
        simp [hm0, ht0, hdrop, husers, Files.fdTableFree_fresh ht0 ht]
      | true =>
        refine .inr ⟨pid, a.mm, a.files, fun h => hproc (.inl h),
          fun h => hproc (.inr h), hfree, ⟨hpos, hlt⟩, hm0, hm, ht0, ht, ?_⟩
        simp [hm0, ht0]

lemma dropDefaults_create (hk : k.Base) (hp : k.procs.table.lookup p = some y) {c pid m t : ℕ}
    (hc : c ∉ k.procs.table) (hm0 : m ≠ 0) (hm : m ∉ k.vm.refcount) (ht0 : t ≠ 0)
    (ht : t ∉ k.io.tables) :
    dropDefaults c ⟨(k.procs.withNext (pid + 1)).link c ⟨pid, .created, false, p, [], m, t, 0⟩,
        { k.vm with refcount := k.vm.refcount.insert m 1 },
        { k.io with tables := k.io.tables.insert t .fresh }⟩ =
      ⟨(k.procs.withNext (pid + 1)).link c ⟨pid, .created, false, p, [], 0, 0, 0⟩,
        k.vm.mark (k.procs.users m), k.io⟩ := by
  have hp0 := (hk.tree.node hp).ne_zero
  have hc' : c ∉ (k.procs.withNext (pid + 1)).table := hc
  have hp' : (k.procs.withNext (pid + 1)).table.lookup p = some y := hp
  dsimp only [dropDefaults]
  rw [get_of_lookup (link_lookup_self hc' hp' hp0 rfl), link_upd hc' hp' hp0 rfl rfl rfl]
  dsimp only
  rw [link_users hc' hp' hp0 rfl rfl, Spaces.destroy_new hk.mem_kernelAs hm0 hm, Files.fdTableFree_fresh ht0 ht]
  rfl

section ForkChild

variable {P : Procs} {V : Spaces} {io : Files} {c pid : ℕ} (hT : P.Tree)
  (hp : P.table.lookup p = some y) (hc : c ∉ P.table) (hc0 : c ≠ 0) (hpid : P.pidTable pid = 0)
  (hpid0 : 0 < pid ∧ pid < pidMax)

include hT hp hc hpid hpid0

lemma processDestroy_child (V : Spaces) (io : Files) (mm t : ℕ) :
    processDestroy c ⟨P.link c ⟨pid, .created, false, p, [], mm, t, 0⟩, V, io⟩ =
      ⟨P, if mm ≠ 0 then V.release mm (P.users mm) else V, io.fdTableFree t⟩ := by
  have hp0 := (hT.node hp).ne_zero
  dsimp only [processDestroy]
  rw [get_of_lookup (link_lookup_self hc hp hp0 rfl), link_unlink hc hp hp0 rfl hpid hpid0]
  simp

include hc0

lemma spawn_child (flags mm t : ℕ) (hn : P.nextPid = pid + 1) :
    let P2 := P.link c ⟨pid, .created, false, p, [], mm, t, 0⟩
    let P3 := if hasBit flags cloneParent then P2.reparent c p else P2
    ∃ x, Procs.Spawn P (P3.upd c ({ · with state := .ready })) c x ∧ x.mm = mm ∧ x.files = t ∧
      x.kernel = false ∧ (x.parent = p ∨ x.parent = y.parent) := by
  intro P2 P3
  have hp0 := (hT.node hp).ne_zero
  have hpc : p ≠ c := by
    rintro rfl
    exact hc (mem_of_lookup_eq_some hp)
  have hready : ∀ (par : ℕ) (hpar : P3.table = (modify par (addChild c) P.table).insert c
      ⟨pid, .created, false, par, if par = c then [c] else [], mm, t, 0⟩)
      (hpt : P3.pidTable = update P.pidTable pid c) (hnp : P3.nextPid = pid + 1),
      Procs.Spawn P (P3.upd c ({ · with state := .ready })) c
        ⟨pid, .ready, false, par, if par = c then [c] else [], mm, t, 0⟩ := by
    intro par hpar hpt hnp
    refine ⟨hc0, hc, hpid0.1, hpid0.2, hpid, fun _ => rfl, rfl, rfl, ?_, hpt, hnp⟩
    rw [Procs.upd, hpar, modify_some (lookup_insert _), insert_insert]
  by_cases hflag : hasBit flags cloneParent
  · have hP3 : P3 = P2.reparent c p := if_pos hflag
    refine ⟨_, hready y.parent ?_ ?_ ?_, rfl, rfl, rfl, .inr rfl⟩
    · rw [hP3, link_reparent hc hp hp0 rfl hT.not_mem_zero hc0 rfl]
    · rw [hP3, Procs.reparent]
      split_ifs <;> rfl
    rw [hP3, Procs.reparent]
    split_ifs <;> exact hn
  have hP3 : P3 = P2 := if_neg hflag
  refine ⟨_, hready p ?_ ?_ ?_, rfl, rfl, rfl, .inl rfl⟩
  · rw [hP3, link_table hc hp hp0 rfl, if_neg hpc]
  · rw [hP3]
    rfl
  rwa [hP3]

lemma forkChild_cases (flags : ℕ) (hn : P.nextPid = pid + 1) (a : ForkAns) :
    let m := V.copyMm y.mm flags a.mm
    let t := io.copyFiles y.files flags a.files
    let r := forkChild c p flags a ⟨P.link c ⟨pid, .created, false, p, [], 0, 0, 0⟩, V, io⟩
    (m.1 = 0 ∧ r.2 = ⟨P, m.2, io⟩) ∨
    (m.1 ≠ 0 ∧ r.2 = ⟨P, m.2.release m.1 (P.users m.1), t.2.fdTableFree t.1⟩) ∨
    (m.1 ≠ 0 ∧ t.1 ≠ 0 ∧ ∃ x, Procs.Spawn P r.2.procs c x ∧ x.kernel = false ∧ x.mm = m.1 ∧
      x.files = t.1 ∧ r.2.vm = m.2 ∧ r.2.io = t.2 ∧ (x.parent = p ∨ x.parent = y.parent) ∧
      0 ≤ r.1) := by
  intro m t r
  have hp0 := (hT.node hp).ne_zero
  have hget : ∀ v, (P.link c ⟨pid, .created, false, p, [], v, 0, 0⟩).get p = addChild c y :=
    fun v => link_get_parent hc hp hp0 rfl
  have hmm : ∀ v, (P.link c ⟨pid, .created, false, p, [], 0, 0, 0⟩).upd c ({ · with mm := v }) =
      P.link c ⟨pid, .created, false, p, [], v, 0, 0⟩ := fun v =>
    link_upd hc hp hp0 rfl rfl rfl
  have hfiles : ∀ v w, (P.link c ⟨pid, .created, false, p, [], v, 0, 0⟩).upd c
      ({ · with files := w }) = P.link c ⟨pid, .created, false, p, [], v, w, 0⟩ := fun v w =>
    link_upd hc hp hp0 rfl rfl rfl
  have hr : r = forkChild c p flags a
    ⟨P.link c ⟨pid, .created, false, p, [], 0, 0, 0⟩, V, io⟩ := rfl
  have hpm : (addChild c y).mm = y.mm := rfl
  have hpf : (addChild c y).files = y.files := rfl
  simp only [forkChild, hget, hmm, hfiles, hpm, hpf] at hr
  by_cases hm : (V.copyMm y.mm flags a.mm).1 = 0
  · left
    rw [if_pos hm, hm, processDestroy_child hT hp hc hpid hpid0] at hr
    rw [hr, Files.fdTableFree_null]
    exact ⟨hm, rfl⟩
  right
  rw [if_neg hm] at hr
  by_cases hfail : (decide ((io.copyFiles y.files flags a.files).1 = 0) || !a.cred) = true
  · left
    rw [if_pos hfail, processDestroy_child hT hp hc hpid hpid0] at hr
    exact ⟨hm, by rw [hr, if_pos hm]⟩
  right
  have ht : t.1 ≠ 0 := fun h0 => hfail (by rw [Bool.or_eq_true]; exact .inl (decide_eq_true h0))
  obtain ⟨x, hspawn, hxm, hxt, hxk, hxp⟩ :=
    spawn_child hT hp hc hc0 hpid hpid0 flags m.1 t.1 hn
  rw [hr, if_neg hfail]
  exact ⟨hm, ht, x, hspawn, hxk, hxm, hxt, rfl, rfl, hxp, Int.natCast_nonneg _⟩

end ForkChild

/-- The address spaces after one has been created for the child and destroyed again: nothing has
changed, unless a process was using the address where it was created. -/
def Kern.Tried (k : Kern) (V : Spaces) : Prop :=
  V = k.vm ∨ ∃ m, m ∉ k.vm.refcount ∧ V = k.vm.mark (k.procs.users m)

/-- A fork that fails releases what it has taken. -/
structure ForkFails (y : Process) (flags : ℕ) (a : ForkAns) (k k' : Kern) : Prop where
  procs : ∃ n, (0 < n ∧ n ≤ pidMax) ∧ k'.procs = k.procs.withNext n
  vm : ∃ V, k.Tried V ∧ (k'.vm = V ∨ ∃ m, m = V.copyMm y.mm flags a.mm ∧ m.1 ≠ 0 ∧
    k'.vm = m.2.release m.1 (k.procs.users m.1))
  io : k'.io = k.io ∨ ∃ t, t = k.io.copyFiles y.files flags a.files ∧ k'.io = t.2.fdTableFree t.1

/-- A fork that succeeds adds the process `x`. -/
structure ForkAdds (y : Process) (flags : ℕ) (a : ForkAns) (k k' : Kern) (c : ℕ) (x : Process) :
    Prop where
  spawn : k.procs.Spawn k'.procs c x
  user : x.kernel = false
  vm : ∃ V, k.Tried V ∧ x.mm ≠ 0 ∧ V.copyMm y.mm flags a.mm = (x.mm, k'.vm)
  io : x.files ≠ 0 ∧ k.io.copyFiles y.files flags a.files = (x.files, k'.io)

lemma Spaces.copyMm_zero {V : Spaces} {mm a : ℕ} (h : (V.copyMm mm flags a).1 = 0) :
    (V.copyMm mm flags a).2 = V := by
  rw [copyMm] at h ⊢
  split_ifs at h ⊢ with h0
  · rfl
  · exact absurd h h0
  obtain hc | ⟨ha, _, hc⟩ := V.create_cases a
  · rw [hc]
  rw [hc] at h
  exact absurd h ha

/-- **What `do_fork` does.** A child is one of the caller or, with `CLONE_PARENT`, of its parent. -/
theorem doFork_cases (hk : k.Base) (hp : k.procs.table.lookup p = some y) (flags : ℕ) (a : ForkAns) :
    ForkFails y flags a k (doFork p flags a k).2 ∨ ∃ c x, ForkAdds y flags a k (doFork p flags a k).2 c x ∧
        (x.parent = p ∨ x.parent = y.parent) ∧ 0 ≤ (doFork p flags a k).1 := by
  obtain ⟨n, V, hn, hfail, hV⟩ | ⟨pid, m, t, hc0, hc, hfree, hpid, hm0, hm, ht0, ht, hcreate⟩ :=
    processCreate_cases hk p a.create
  · left
    rw [doFork, hfail]
    exact ⟨⟨n, hn, rfl⟩, ⟨V, hV, .inl rfl⟩, .inl rfl⟩
  have hfork : doFork p flags a k = forkChild a.create.proc p flags a
      ⟨(k.procs.withNext (pid + 1)).link a.create.proc ⟨pid, .created, false, p, [], 0, 0, 0⟩,
        k.vm.mark (k.procs.users m), k.io⟩ := by
    rw [doFork, hcreate]
    split
    · next h => exact absurd (congrArg Prod.fst h) hc0
    · next c k' _ h =>
      cases h
      rw [dropDefaults_create hk hp hc hm0 hm ht0 ht]
  have hn : 0 < pid + 1 ∧ pid + 1 ≤ pidMax := ⟨Nat.succ_pos _, hpid.2⟩
  have htried : k.Tried (k.vm.mark (k.procs.users m)) := .inr ⟨m, hm, rfl⟩
  rw [hfork]
  obtain ⟨hm1, h⟩ | ⟨hm1, h⟩ | ⟨hm1, ht1, x, hs, hxk, hxm, hxt, hvm, hio, hxp⟩ :=
    forkChild_cases (V := k.vm.mark (k.procs.users m)) (hk.tree.withNext hn) hp hc hc0 hfree hpid flags rfl a
  · left
    rw [h]
    exact ⟨⟨pid + 1, hn, rfl⟩, ⟨_, htried, .inl (Spaces.copyMm_zero hm1)⟩, .inl rfl⟩
  · left
    rw [h]
    exact ⟨⟨pid + 1, hn, rfl⟩, ⟨_, htried, .inr ⟨_, rfl, hm1, rfl⟩⟩, .inr ⟨_, rfl, rfl⟩⟩
  right
  refine ⟨a.create.proc, x, ⟨?_, hxk, ⟨_, htried, ?_, ?_⟩, ?_, ?_⟩, hxp⟩
  · exact ⟨hs.ne_zero, hs.fresh, hs.pid_pos, hs.pid_lt, hs.pid_free, hs.kernel, hs.state,
      hs.children, hs.table, hs.pidTable, hs.nextPid⟩
  · rwa [hxm]
  · rw [hxm, hvm]
  · rwa [hxt]
  · rw [hxt, hio]

/-- A new kernel thread. -/
structure KernelAdds (k k' : Kern) (c : ℕ) (x : Process) : Prop where
  spawn : k.procs.Spawn k'.procs c x
  kernel : x.kernel = true
  parent : x.parent = 0
  mm : x.mm = kernelAs
  vm : k'.vm = k.vm
  files : x.files ≠ 0 ∧ x.files ∉ k.io.tables
  io : k'.io = { k.io with tables := k.io.tables.insert x.files .fresh }

lemma kernelCreate_spec (hT : k.procs.Tree) {a : CreateAns} {c : ℕ} {k' : Kern}
    (hr : processCreate 0 true a k = (c, k')) (hc : c ≠ 0) :
    ∃ x, KernelAdds k { k' with procs := k'.procs.upd c ({ · with state := .ready }) } c x := by
  rw [processCreate] at hr
  by_cases hproc : a.proc = 0 ∨ a.proc ∈ k.procs.table
  · rw [if_pos hproc] at hr
    exact absurd (Prod.mk.inj hr).1.symm hc
  rw [if_neg hproc] at hr
  obtain ⟨hp0, hp⟩ := not_or.mp hproc
  cases hpid : k.procs.allocPid with
  | none =>
    rw [hpid] at hr
    exact absurd (Prod.mk.inj hr).1.symm hc
  | some r =>
    obtain ⟨pid, P⟩ := r
    obtain ⟨rfl, hfree, hpos, hlt⟩ := allocPid_spec hT hpid
    simp only [hpid, if_true] at hr
    split_ifs at hr with h1 h2 h3
    · exact absurd (Prod.mk.inj hr).1.symm hc
    · exact absurd (Prod.mk.inj hr).1.symm hc
    · exact absurd (Prod.mk.inj hr).1.symm hc
    cases hr
    obtain ht | ⟨ht0, ht, hct⟩ := k.io.fdTableCreate_cases a.files
    · exact absurd (by rw [ht]) h2
    have hpc : ¬ 0 = a.proc := Ne.symm hc
    refine ⟨⟨pid, .ready, true, 0, [], kernelAs, a.files, 0⟩,
      ⟨⟨hc, hp, hpos, hlt, hfree, fun h => absurd rfl h, rfl, (if_neg hpc).symm, ?_, rfl, rfl⟩,
        rfl, rfl, rfl, rfl, ⟨ht0, ht⟩, ?_⟩⟩
    · dsimp only [Procs.upd, Procs.link]
      rw [if_pos rfl, modify_some (lookup_insert _), insert_insert,
        modify_none (lookup_eq_none.mpr hT.not_mem_zero), hct]
      rfl
    dsimp only
    rw [hct]

lemma processInit_spec {a b : CreateAns} (h : processInit a b = some k) :
    ∃ i x k1 j y, KernelAdds .empty k1 i x ∧ k1.procs.Tree ∧ KernelAdds k1 k j y := by
  have hempty : Kern.empty.procs.Tree := ⟨nofun, fun pid hne => absurd rfl hne, by decide⟩
  rw [processInit] at h
  split at h
  · cases h
  · next i k1 hi hr1 =>
    obtain ⟨x, hx⟩ := kernelCreate_spec hempty hr1 hi
    have hT := hempty.spawn hx.spawn
    split at h
    · cases h
    · next j k2 hj hr2 =>
      obtain ⟨y, hy⟩ := kernelCreate_spec hT hr2 hj
      rw [← some.inj h]
      exact ⟨i, x, _, j, y, hx, hT, hy⟩

/-- What the allocators answer for idle, for init and for a forked child. -/
def idleAns : CreateAns := ⟨100, true, 0, 200, true⟩

def initAns : CreateAns := ⟨101, true, 0, 201, true⟩

def childAns : ForkAns := ⟨⟨102, true, 11, 202, true⟩, 11, 202, true⟩

lemma exists_boot {P : Kern → Prop} [DecidablePred P]
    (h : (processInit idleAns initAns).any (fun k => decide (P k)) = true) :
    ∃ k, processInit idleAns initAns = some k ∧ P k := by
  match hk : processInit idleAns initAns with
  | none => rw [hk] at h; cases h
  | some k => rw [hk] at h; exact ⟨k, rfl, of_decide_eq_true h⟩

end Obelisk
