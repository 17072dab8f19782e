import Obelisk.Sock.System

/-!
# Descriptor numbers

Files are numbered by the slots of a descriptor table, sockets by `SOCKET_FD_BASE` and their slot in
`socket_table`.
-/

namespace Obelisk

open KLib Option Files

def Files.Filled (s : Files) (t n : ℕ) : Prop := ((s.get t).fds n).file ≠ 0

def socketNumber (i : ℕ) : ℕ := (socketFd i).toNat

/-- No number is at the same time a non-empty slot of the descriptor table of a process and a used
socket of that process. -/
def OneName (s : Sys) : Prop :=
  ∀ p x i, s.kern.procs.table.lookup p = some x → Owned x.pid i s.socks → ¬s.kern.io.Filled x.files (socketNumber i)

def fills (op : KernOp) (k : Kern) : Option (ℕ × ℕ) :=
  let t := (k.procs.get op.caller).files
  match op with
  | .openFile _ _ (.ok f) =>
    if f = 0 ∨ f ∈ k.io.count then none else (k.io.get t).freeSlot.map (t, ·)
  | .dup _ fd => if k.io.fdGet t fd = 0 then none else (k.io.get t).freeSlot.map (t, ·)
  | .dup2 _ oldfd newfd =>
    if ¬(0 ≤ newfd ∧ newfd < (k.io.get t).maxFds) ∨ k.io.fdGet t oldfd = 0 ∨ oldfd = newfd then none
    else some (t, newfd.toNat)
  | _ => none

def SysOp.fills (op : SysOp) (s : Sys) : Option (ℕ × ℕ) :=
  match op with
  | kern kop => if s.kern.procs.runnable kop.caller then Obelisk.fills kop s.kern else none
  | sock _ _ => none

def SysOp.takes (op : SysOp) (s : Sys) : List (ℕ × ℕ) :=
  match op with
  | kern _ => []
  | sock p sop => if s.kern.procs.runnable p then Obelisk.takes (s.pid p) sop s.socks else []

/-- The descriptor slot the call fills is not the number of a socket of a process that has the table;
the socket slots it takes are not the numbers of open descriptors of their new owners. -/
def NumberFree (op : SysOp) (s : Sys) : Prop :=
  (∀ t n, op.fills s = some (t, n) → ∀ p x i, s.kern.procs.table.lookup p = some x →
    x.files = t → Owned x.pid i s.socks → n ≠ socketNumber i) ∧
  ∀ i q, (i, q) ∈ op.takes s → ∀ p x, s.kern.procs.table.lookup p = some x → x.pid = q →
    ¬s.kern.io.Filled x.files (socketNumber i)

def SysOp.onDescriptors : SysOp → Bool
  | kern (.openFile ..) | kern (.closeFile ..) | kern (.dup ..) | kern (.dup2 ..) | sock .. => true
  | _ => false

abbrev DescOp := { op : SysOp // op.onDescriptors = true }

def descStep (op : DescOp) : Sys → (ℤ × List UInt8) × Sys := sysStep op.1

section Files

variable {P : Procs} {s : Files} {t f n : ℕ} {T : FdTable}

lemma filled_upd (ht : s.tables.lookup t = some T) {g : FdTable → FdTable} (t' n : ℕ) :
    (s.upd t g).Filled t' n ↔ if t' = t then ((g T).fds n).file ≠ 0 else s.Filled t' n := by
  split_ifs with h
  · rw [h, Files.Filled, Files.get, Files.upd, lookup_modify_self, ht]
    rfl
  rw [Files.Filled, Files.get, Files.upd, lookup_modify_ne h]
  rfl

lemma filled_setSlot (ht : s.tables.lookup t = some T) {g : FdTable → FdTable} {e : FdEntry}
    {i : ℕ} (he : e.file ≠ 0) (hg : (g T).fds = (T.setSlot i e).fds) (t' n : ℕ) :
    (s.upd t g).Filled t' n ↔ s.Filled t' n ∨ t' = t ∧ n = i := by
  rw [filled_upd ht]
  split_ifs with h
  · rw [hg, h]
    by_cases hn : n = i
    · rw [hn, FdTable.setSlot_fds_self]
      exact iff_of_true he (.inr ⟨rfl, rfl⟩)
    rw [FdTable.setSlot_fds_ne hn, Files.Filled, get_of_lookup ht]
    tauto
  · tauto

lemma filled_putFile : (s.putFile f).Filled t n ↔ s.Filled t n := by
  rw [putFile]
  split_ifs <;> rfl

lemma filled_getFile : (s.getFile f).Filled t n ↔ s.Filled t n := by
  rw [getFile]
  split_ifs <;> rfl

section

variable (h : TableOk P s.tables) (ht : s.tables.lookup t = some T)
include h ht

lemma filled_fdAlloc (hf : f ≠ 0) (flags t' n : ℕ) : (s.fdAlloc t f flags).2.Filled t' n ↔
      s.Filled t' n ∨ T.freeSlot.map (t, ·) = some (t', n) := by
  obtain ⟨i, hi, -, -, heq⟩ | ⟨hnone, heq⟩ := fdAlloc_cases h ht hf flags
  · have hset := filled_setSlot (i := i) (e := ⟨f, flags⟩) (g := fun T =>
      { T.setSlot i ⟨f, flags⟩ with nextFd := i + 1 }) ht hf rfl t' n
    rw [heq, hi]
    dsimp only at hset ⊢
    rw [hset]
    simp [eq_comm]
  rw [heq, hnone, filled_upd ht]
  split_ifs with h'
  · rw [h', Files.Filled, get_of_lookup ht]
    simp
  · simp

lemma filled_sysOpen (flags : ℕ)
    (hf : ¬(f = 0 ∨ f ∈ s.count)) (t' n : ℕ) : (s.sysOpen t flags (.ok f)).2.Filled t' n ↔
      s.Filled t' n ∨ T.freeSlot.map (t, ·) = some (t', n) := by
  rw [sysOpen, vfsOpen, if_neg hf]
  generalize (if hasBit flags oCloexec then oCloexec else 0) = fl
  have := filled_fdAlloc (s := { s with count := s.count.insert f 1 }) h ht (not_or.mp hf).1 fl t' n
  dsimp only at this ⊢
  split_ifs <;> exact this

lemma filled_sysDup {fd : ℤ} (hf : s.fdGet t fd ≠ 0) (t' n : ℕ) : (s.sysDup t fd).2.Filled t' n ↔
      s.Filled t' n ∨ T.freeSlot.map (t, ·) = some (t', n) := by
  rw [sysDup, if_neg hf, ← filled_fdAlloc h ht hf ((s.get t).fds fd.toNat).flags]
  dsimp only
  split_ifs
  · rfl
  · exact filled_getFile

lemma filled_sysDup2 {oldfd newfd : ℤ} (hok : ¬(¬(0 ≤ newfd ∧ newfd < (s.get t).maxFds) ∨ s.fdGet t oldfd = 0))
    (hne : oldfd ≠ newfd) (t' n : ℕ) : (s.sysDup2 t oldfd newfd).2.Filled t' n ↔
      s.Filled t' n ∨ t' = t ∧ n = newfd.toNat := by
  obtain ⟨hnew, hfile⟩ := not_or.mp hok
  rw [get_of_lookup ht] at hnew
  obtain ⟨-, T1, hT1, -, -, hkept⟩ := sysDup2_target h ht (not_not.mp hnew)
  rw [sysDup2, if_neg hok, if_neg hne]
  dsimp only at hT1 ⊢
  generalize hs1 : (if s.fdGet t newfd = 0 then s
    else (s.upd t (·.setSlot newfd.toNat ⟨0, 0⟩)).putFile (s.fdGet t newfd)) = s1 at hT1 ⊢
  have hother : t' ≠ t → (s1.Filled t' n ↔ s.Filled t' n) := by
    intro htt
    rw [← hs1]
    split_ifs
    · rfl
    · rw [filled_putFile, filled_upd ht, if_neg htt]
  have hT1' : (s1.getFile (s.fdGet t oldfd)).tables.lookup t = some T1 := by
    rw [getFile_tables]
    exact hT1
  rw [filled_upd hT1', filled_getFile]
  split_ifs with htt
  · by_cases hn : n = newfd.toNat
    · rw [hn, FdTable.setSlot_fds_self]
      exact iff_of_true hfile (.inr ⟨htt, rfl⟩)
    · rw [FdTable.setSlot_fds_ne hn, hkept n hn, htt, Files.Filled, get_of_lookup ht]
      tauto
  · simp only [hother htt, htt, false_and, or_false]

end

lemma filled_sysClose (ht : s.tables.lookup t = some T) (fd : ℤ) {t' n : ℕ}
    (h : (s.sysClose t fd).2.Filled t' n) : s.Filled t' n := by
  rw [sysClose] at h
  split_ifs at h with h0
  · exact h
  rw [filled_putFile, filled_upd ht] at h
  split_ifs at h with htt
  · rw [htt, Files.Filled, get_of_lookup ht]
    have hfds : ((T.setSlot fd.toNat ⟨0, 0⟩).lowerNext fd.toNat).fds =
      (T.setSlot fd.toNat ⟨0, 0⟩).fds := rfl
    rw [hfds] at h
    by_cases hn : n = fd.toNat
    · rw [hn, FdTable.setSlot_fds_self] at h
      exact absurd rfl h
    · rwa [FdTable.setSlot_fds_ne hn] at h
  · exact h

end Files

def KernOp.onFiles (op : KernOp) : Bool := (SysOp.kern op).onDescriptors

lemma fills_spec {k : Kern} {op : KernOp} (h : TableOk k.procs k.io.tables)
    (hop : op.onFiles = true) (hrun : k.procs.runnable op.caller = true) :
    (kernStep op k).2.procs = k.procs ∧
      (∀ t n, (kernStep op k).2.io.Filled t n → k.io.Filled t n ∨ fills op k = some (t, n)) ∧
      ∀ t n, fills op k = some (t, n) → (kernStep op k).2.io.Filled t n := by
  obtain ⟨y, hp, -⟩ := Procs.runnable_iff.mp hrun
  obtain ⟨T, ht, -⟩ := h.exists_table hp
  have hfiles := congrArg Process.files (Procs.get_of_lookup hp)
  rw [kernStep, if_pos hrun]
  -- where the call fills just the slot that is named
  have hiff : ∀ {s' : Files}, (∀ t n, s'.Filled t n ↔ k.io.Filled t n ∨ fills op k = some (t, n)) →
      (∀ t n, s'.Filled t n → k.io.Filled t n ∨ fills op k = some (t, n)) ∧
        ∀ t n, fills op k = some (t, n) → s'.Filled t n :=
    fun hs' => ⟨fun t n => (hs' t n).mp, fun t n ht => (hs' t n).mpr (.inr ht)⟩
  cases op with
  | openFile p flags ans =>
    refine ⟨rfl, hiff fun t n => ?_⟩
    simp only [KernOp.perform, Kern.onFiles, fills]
    rw [KernOp.caller] at hfiles ⊢
    rw [hfiles]
    cases ans with
    | error e => simp [sysOpen, vfsOpen]
    | ok f =>
      dsimp only
      split_ifs with hf
      · rw [sysOpen, vfsOpen, if_pos hf]
        simp
      · rw [filled_sysOpen h ht flags hf, get_of_lookup ht]
  | closeFile p fd =>
    refine ⟨rfl, fun t n hn => .inl ?_, by rintro _ _ ⟨⟩⟩
    simp only [KernOp.perform, Kern.onFiles] at hn
    rw [KernOp.caller] at hfiles
    rw [hfiles] at hn
    exact filled_sysClose ht fd hn
  | dup p fd =>
    refine ⟨rfl, hiff fun t n => ?_⟩
    simp only [KernOp.perform, Kern.onFiles, fills]
    rw [KernOp.caller] at hfiles ⊢
    rw [hfiles]
    split_ifs with hf
    · rw [sysDup, if_pos hf]
      simp
    · rw [filled_sysDup h ht hf, get_of_lookup ht]
  | dup2 p oldfd newfd =>
    refine ⟨rfl, hiff fun t n => ?_⟩
    simp only [KernOp.perform, Kern.onFiles, fills]
    rw [KernOp.caller] at hfiles ⊢
    rw [hfiles]
    by_cases hbad : ¬(0 ≤ newfd ∧ newfd < (k.io.get y.files).maxFds) ∨ k.io.fdGet y.files oldfd = 0
    · rw [if_pos (by tauto), sysDup2, if_pos hbad]
      simp
    by_cases hsame : oldfd = newfd
    · rw [if_pos (by tauto), sysDup2, if_neg hbad, if_pos hsame]
      simp
    rw [if_neg (by tauto), filled_sysDup2 h ht hbad hsame]
    simp [eq_comm]
  | _ => cases hop

variable {s s' : Sys} {op : SysOp} {r : ℤ × List UInt8}

lemma desc_step (hok : s.Ok) (hop : op.onDescriptors = true) (hstep : SysStep op s r s') :
    s'.kern.procs = s.kern.procs ∧
    (op.fills s = none ∧ s'.kern = s.kern ∧ (∀ q i, Owned q i s'.socks → Owned q i s.socks ∨ (i, q) ∈ op.takes s) ∧
        (∀ q i, (i, q) ∈ op.takes s → Owned q i s'.socks) ∨
      op.takes s = [] ∧ s'.socks = s.socks ∧
        (∀ t n, s'.kern.io.Filled t n → s.kern.io.Filled t n ∨ op.fills s = some (t, n)) ∧
        ∀ t n, op.fills s = some (t, n) → s'.kern.io.Filled t n) := by
  cases hstep with
  | idle hrun =>
    refine ⟨rfl, .inl ⟨?_, rfl, fun q i h => .inl h, ?_⟩⟩
    · cases op with
      | kern kop => exact if_neg (Bool.eq_false_iff.mp hrun)
      | sock p sop => rfl
    intro q i hq
    cases op with
    | kern kop => cases hq
    | sock p sop =>
      have hnot : ¬s.kern.procs.runnable p = true := Bool.eq_false_iff.mp hrun
      rw [SysOp.takes, if_neg hnot] at hq
      cases hq
  | sock p sop r S hsock hrun h =>
    have htakes : op.takes s = takes (s.pid p) sop s.socks := by
      cases op with
      | kern kop =>
        cases kop with
        | closeFile q fd =>
          cases hsock
          rfl
        | _ => cases hsock
      | sock q sop' =>
        cases hsock
        exact if_pos hrun
    have hfills : op.fills s = none := by
      cases op with
      | kern kop =>
        cases kop with
        | closeFile q fd => exact ite_self _
        | _ => cases hsock
      | sock q sop' => rfl
    refine ⟨rfl, .inl ⟨hfills, rfl, ?_, ?_⟩⟩
    · rintro q i ⟨hi, hu, ho⟩
      rw [htakes]
      cases slot_step h i with
      | new _ _ _ ht => exact .inr ((ht q).mpr ho.symm)
      | kept hu' ho' _ =>
        rw [hu] at hu'
        exact .inl ⟨hi, hu'.symm, (ho' hu'.symm).symm.trans ho⟩
      | closed _ _ hu' =>
        rw [hu] at hu'
        cases hu'
    intro q i hq
    rw [htakes] at hq
    cases slot_step h i with
    | new hi _ hu ht => exact ⟨hi, hu, ((ht q).mp hq).symm⟩
    | kept _ _ ht => exact absurd hq (ht q)
    | closed hclose _ _ =>
      rw [hclose] at hq
      cases hq
  | kern kop hkern hrun =>
    have hkop : kop.onFiles = true := by
      cases op with
      | kern kop' => exact some.inj hkern ▸ hop
      | sock p sop =>
        cases sop with
        | close fd => exact some.inj hkern ▸ rfl
        | _ => cases hkern
    have hrun' : s.kern.procs.runnable kop.caller = true := asKern_caller hkern ▸ hrun
    obtain ⟨hprocs, hfrom, hto⟩ := fills_spec hok.tables hkop hrun'
    have htakes : op.takes s = [] := by
      cases op with
      | kern kop' => rfl
      | sock p sop =>
        cases sop with
        | close fd => exact ite_self _
        | _ => cases hkern
    have hfills : op.fills s = fills kop s.kern := by
      cases op with
      | kern kop' =>
        cases hkern
        exact if_pos hrun'
      | sock p sop =>
        cases sop with
        | close fd =>
          cases hkern
          rfl
        | _ => cases hkern
    rw [hfills]
    exact ⟨hprocs, .inr ⟨htakes, rfl, hfrom, hto⟩⟩

lemma oneName_step (hok : s.Ok) (h : OneName s) (op : DescOp) :
    OneName (descStep op s).2 ↔ NumberFree op.1 s := by
  obtain ⟨hprocs, ⟨hfills, hkern, hfrom, hto⟩ | ⟨htakes, hsocks, hfrom, hto⟩⟩ :=
    desc_step hok op.2 (sysStep_cases op.1 s)
  · rw [OneName, NumberFree, descStep, hkern]
    constructor
    · refine fun h' => ⟨fun t n ht => ?_, ?_⟩
      · rw [hfills] at ht
        cases ht
      · rintro i q hq p x hp rfl
        exact h' p x i hp (hto _ i hq)
    rintro ⟨-, hfree⟩ p x i hp hown
    obtain hold | hnew := hfrom _ i hown
    · exact h p x i hp hold
    · exact hfree i _ hnew p x hp rfl
  rw [OneName, NumberFree, descStep, hprocs, hsocks]
  constructor
  · refine fun h' => ⟨?_, fun i q hq => ?_⟩
    · rintro t n ht p x i hp rfl hown rfl
      exact h' p x i hp hown (hto _ _ ht)
    · rw [htakes] at hq
      cases hq
  rintro ⟨hfree, -⟩ p x i hp hown hfilled
  obtain hold | hnew := hfrom _ _ hfilled
  · exact h p x i hp hown hold
  · exact hfree _ _ hnew p x i hp rfl hown rfl

/-- **A number names one object**, a file or a socket, in every state of a run of calls on
descriptors, just when every call takes numbers that are free on the other side. -/
theorem number_run_unique (hok : s.Ok) (h : OneName s) (ops : List DescOp) :
    (∀ pre, pre <+: ops → OneName (runOps descStep pre s).2) ↔
      Along descStep (fun op => NumberFree op.1) ops s := by
  have hall : ∀ pre, (runOps descStep pre s).2.Ok := fun pre =>
    runOps_inv Sys.Ok (fun op _ h => h.step op.1) pre hok
  have hstep : ∀ (op : DescOp) (s : Sys), s.Ok ∧ OneName s →
      ((descStep op s).2.Ok ∧ OneName (descStep op s).2 ↔ NumberFree op.1 s) :=
    fun op s hs => (and_iff_right (hs.1.step op.1)).trans (oneName_step hs.1 hs.2 op)
  have hiff := forall_prefix_iff_along (fun s : Sys => s.Ok ∧ OneName s) hstep ops ⟨hok, h⟩
  rw [← hiff]
  exact forall₂_congr fun pre _ => (and_iff_right (hall pre)).symm

lemma oneName_boot (k : Kern) : OneName (Sys.boot k) := by
  rintro p x i - ⟨-, hu, -⟩
  cases hu

theorem number_run_unique_small : ∃ k, processInit idleAns initAns = some k ∧
    OneName (runOps descStep [⟨.sock 101 (.socket afUnix sockStream 0 true), rfl⟩,
      ⟨.kern (.openFile 101 0 (.ok 300)), rfl⟩] (Sys.boot k)).2 := by
  obtain ⟨k, hk, htakes, hsome, hpid, hfree, hopen⟩ := exists_boot (P := fun k =>
    (SysOp.sock 101 (.socket afUnix sockStream 0 true)).takes (Sys.boot k) = [(0, 2)] ∧
      (k.procs.table.lookup 101).isSome ∧ (k.procs.get 101).pid = 2 ∧
      ((k.io.get (k.procs.get 101).files).fds 512).file = 0 ∧
      ((SysOp.kern (.openFile 101 0 (.ok 300))).fills (descStep ⟨.sock 101
        (.socket afUnix sockStream 0 true), rfl⟩ (Sys.boot k)).2).map Prod.snd = some 3)
    (by decide +kernel)
  obtain ⟨y, hy⟩ := isSome_iff_exists.mp hsome
  have hok := Sys.Ok.boot hk
  refine ⟨k, hk, (number_run_unique hok (oneName_boot k) _).mpr ?_ _ List.prefix_rfl⟩
  refine ⟨⟨nofun, ?_⟩, ⟨?_, nofun⟩, trivial⟩
  · intro i q hq p x hp hxq
    rw [htakes, List.mem_singleton] at hq
    cases hq
    rw [Procs.get_of_lookup hy] at hpid hfree
    obtain rfl := hok.base.tree.pid_inj hp hy (hxq.trans hpid.symm)
    obtain rfl := some.inj (hp.symm.trans hy)
    exact not_not.mpr hfree
  intro t n hn p x i _ _ _
  rw [hn, map_some, some.injEq] at hopen
  rw [show n = 3 from hopen, socketNumber, socketFd, socketFdBase]
  omega

theorem dup2_onto_socket : ∃ k, processInit idleAns initAns = some k ∧
    let run := runOps descStep [⟨.sock 101 (.socket afUnix sockStream 0 true), rfl⟩,
      ⟨.kern (.openFile 101 0 (.ok 300)), rfl⟩, ⟨.kern (.dup2 101 3 512), rfl⟩] (Sys.boot k)
    run.1 = [(512, []), (3, []), (512, [])] ∧ ¬OneName run.2 := by
  obtain ⟨k, hk, hres, hsome, hused, howner, hfile⟩ := exists_boot (P := fun k =>
    let run := runOps descStep [⟨.sock 101 (.socket afUnix sockStream 0 true), rfl⟩,
      ⟨.kern (.openFile 101 0 (.ok 300)), rfl⟩, ⟨.kern (.dup2 101 3 512), rfl⟩] (Sys.boot k)
    run.1 = [(512, []), (3, []), (512, [])] ∧
      (run.2.kern.procs.table.lookup 101).isSome ∧ (run.2.socks 0).used = true ∧
      (run.2.socks 0).ownerPid = (run.2.kern.procs.get 101).pid ∧
      ((run.2.kern.io.get (run.2.kern.procs.get 101).files).fds (socketNumber 0)).file ≠ 0)
    (by decide +kernel)
  obtain ⟨y, hy⟩ := isSome_iff_exists.mp hsome
  rw [Procs.get_of_lookup hy] at howner hfile
  exact ⟨k, hk, hres, fun h => h 101 y 0 hy ⟨by decide, hused, howner⟩ hfile⟩

end Obelisk
