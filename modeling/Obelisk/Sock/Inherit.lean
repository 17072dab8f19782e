import Obelisk.Sock.Number

/-!
# Descriptors after a fork

`do_fork` copies the descriptor table, but pipes and sockets belong to the process that made them.
-/

namespace Obelisk

open KLib Finmap Files

variable {p : ℕ} {g : FdTable → FdTable} {x : Process}

/-- What a descriptor denotes. -/
inductive Denoted
  | socket (i : ℕ)
  | file (f : ℕ)
  deriving DecidableEq, Repr

def Sys.denotes (s : Sys) (p : ℕ) (n : ℤ) : Option Denoted :=
  match socketGetOwned (s.pid p) n s.socks with
  | some i => some (.socket i)
  | none =>
    let file := s.kern.io.fdGet (s.kern.procs.get p).files n
    if file = 0 then none else some (.file file)

lemma sysClose_eBadf_iff {s : Sys} {n : ℤ} :
    (s.sysClose p n).1.1 = eBadf ↔ s.denotes p n = none := by
  rw [Sys.sysClose, sysCloseSocket, Sys.denotes]
  cases socketGetOwned (s.pid p) n s.socks with
  | some i =>
    have hne : (0 : ℤ) ≠ eBadf := by decide
    exact iff_of_false hne (by simp)
  | none =>
    have hne : (0 : ℤ) ≠ eBadf := by decide
    dsimp only [Option.map_none, KernOp.perform, Kern.onFiles, sysClose]
    split_ifs with h0
    · exact iff_of_true rfl rfl
    · exact iff_of_false hne (by simp)

def SysOp.closes (n : ℤ) : SysOp → Bool
  | kern (.closeFile _ fd) => fd == n
  | kern (.dup2 _ _ newfd) => newfd == n
  | sock _ (.close fd) => fd == n
  | _ => false

def Spares (t : ℕ) (n : ℤ) (op : SysOp) (s : Sys) : Prop :=
  (s.kern.procs.get op.caller).files = t → op.closes n = false

/-! ## Slots -/

section Slot

variable {P : Procs} {s : Files} {t t' n : ℕ} {T : FdTable}

def Files.slot (s : Files) (t n : ℕ) : ℕ := ((s.get t).fds n).file

lemma slot_upd_ne (h : t' ≠ t) : (s.upd t g).slot t' n = s.slot t' n := by
  rw [Files.slot, Files.slot, Files.get, Files.get, Files.upd, lookup_modify_ne h]

lemma slot_upd (ht : s.tables.lookup t = some T) : (s.upd t g).slot t n = ((g T).fds n).file := by
  rw [Files.slot, Files.get, Files.upd, lookup_modify_self, ht]
  rfl

lemma slot_of_tables {s' : Files} (h : s'.tables = s.tables) : s'.slot t n = s.slot t n := by
  rw [Files.slot, Files.slot, Files.get, Files.get, h]

lemma slot_upd_same (ht : s.tables.lookup t = some T)
    (hg : ((g T).fds n).file = (T.fds n).file) : (s.upd t g).slot t' n = s.slot t' n := by
  by_cases h : t' = t
  · rw [h, slot_upd ht, hg, slot, get_of_lookup ht]
  · exact slot_upd_ne h

section

variable (h : TableOk P s.tables) (ht : s.tables.lookup t = some T)
include h ht

lemma slot_fdAlloc {f : ℕ} (hf : f ≠ 0)
    (flags : ℕ) (hn : s.slot t' n ≠ 0) : (s.fdAlloc t f flags).2.slot t' n = s.slot t' n := by
  obtain ⟨i, -, -, hzero, heq⟩ | ⟨-, heq⟩ := fdAlloc_cases h ht hf flags
  · rw [heq]
    by_cases htt : t' = t
    · subst htt
      refine slot_upd_same ht ?_
      have hne : n ≠ i := fun e => hn (by rw [slot, get_of_lookup ht, e, hzero])
      show ((T.setSlot i ⟨f, flags⟩).fds n).file = _
      rw [FdTable.setSlot_fds_ne hne]
    · exact slot_upd_ne htt
  rw [heq]
  exact slot_upd_same ht rfl

lemma slot_sysOpen (flags : ℕ) (ans : Except ℤ ℕ) (hn : s.slot t' n ≠ 0) :
    (s.sysOpen t flags ans).2.slot t' n = s.slot t' n := by
  cases ans with
  | error e => rfl
  | ok f =>
    by_cases hf : f = 0 ∨ f ∈ s.count
    · rw [sysOpen, vfsOpen, if_pos hf]
    rw [sysOpen, vfsOpen, if_neg hf]
    generalize (if hasBit flags oCloexec then oCloexec else 0) = fl
    have hal : (fdAlloc t f fl { s with count := s.count.insert f 1 }).2.slot t' n =
        s.slot t' n :=
      @slot_fdAlloc P { s with count := s.count.insert f 1 } t t' n T h ht f (not_or.mp hf).1 fl hn
    dsimp only
    split_ifs <;> exact hal

lemma slot_sysDup (fd : ℤ)
    (hn : s.slot t' n ≠ 0) : (s.sysDup t fd).2.slot t' n = s.slot t' n := by
  rw [sysDup]
  dsimp only
  split_ifs with h0 h1
  · rfl
  · exact slot_fdAlloc h ht h0 _ hn
  rw [slot_of_tables (getFile_tables ..)]
  exact slot_fdAlloc h ht h0 _ hn

end

lemma slot_sysClose (ht : s.tables.lookup t = some T) {fd : ℤ} (hfd : t' = t → fd ≠ n) :
    (s.sysClose t fd).2.slot t' n = s.slot t' n := by
  rw [sysClose]
  split_ifs with h0
  · rfl
  rw [slot_of_tables (putFile_tables ..)]
  by_cases htt : t' = t
  · subst htt
    refine slot_upd_same ht ?_
    have hpos : 0 ≤ fd := by
      by_contra hneg
      exact h0 (if_neg fun hr => hneg hr.1)
    have hne : n ≠ fd.toNat := fun e => hfd rfl (by omega)
    show ((T.setSlot fd.toNat ⟨0, 0⟩).fds n).file = _
    rw [FdTable.setSlot_fds_ne hne]
  · exact slot_upd_ne htt

lemma slot_sysDup2 (h : TableOk P s.tables) (ht : s.tables.lookup t = some T) (oldfd : ℤ)
    {newfd : ℤ} (hfd : t' = t → newfd ≠ n) :
    (s.sysDup2 t oldfd newfd).2.slot t' n = s.slot t' n := by
  rw [sysDup2]
  by_cases hbad : ¬(0 ≤ newfd ∧ newfd < (s.get t).maxFds) ∨ s.fdGet t oldfd = 0
  · rw [if_pos hbad]
  rw [if_neg hbad]
  by_cases hsame : oldfd = newfd
  · rw [if_pos hsame]
  rw [if_neg hsame]
  obtain ⟨hnew, -⟩ := not_or.mp hbad
  rw [not_not, get_of_lookup ht] at hnew
  obtain ⟨-, T1, ht1, -, -, hrest⟩ := sysDup2_target h ht hnew
  dsimp only at ht1 ⊢
  have hother : t' ≠ t → slot (if s.fdGet t newfd = 0 then s
      else (s.upd t (·.setSlot newfd.toNat ⟨0, 0⟩)).putFile (s.fdGet t newfd)) t' n =
      s.slot t' n := fun htt => by
    split_ifs
    · rfl
    · rw [slot_of_tables (putFile_tables ..), slot_upd_ne htt]
  generalize (if s.fdGet t newfd = 0 then s
    else (s.upd t (·.setSlot newfd.toNat ⟨0, 0⟩)).putFile (s.fdGet t newfd)) = s1 at ht1 hother ⊢
  have ht2 : (s1.getFile (s.fdGet t oldfd)).tables.lookup t = some T1 := by
    rw [getFile_tables]
    exact ht1
  by_cases htt : t' = t
  · subst htt
    have hne : n ≠ newfd.toNat := fun e => hfd rfl (by omega)
    rw [slot_upd ht2, FdTable.setSlot_fds_ne hne, hrest n hne, slot, get_of_lookup ht]
  · rw [slot_upd_ne htt, slot_of_tables (getFile_tables ..), hother htt]

end Slot

section Run

variable {s : Sys} {t n : ℕ}

lemma desc_slot (hok : s.Ok) (op : DescOp) (hn : s.kern.io.slot t n ≠ 0) (hspare : Spares t n op.1 s) :
    (descStep op s).2.kern.procs = s.kern.procs ∧
      (descStep op s).2.kern.io.slot t n = s.kern.io.slot t n := by
  obtain ⟨op, hop⟩ := op
  refine ⟨(desc_step hok hop (sysStep_cases op s)).1, ?_⟩
  have hstep := sysStep_cases op s
  show (sysStep op s).2.kern.io.slot t n = _
  generalize sysStep op s = r at hstep ⊢
  obtain ⟨r, s'⟩ := r
  cases hstep with
  | idle | sock => rfl
  | kern kop hkern hrun =>
    have hcaller := asKern_caller hkern
    rw [hcaller] at hrun
    obtain ⟨y, hp, -⟩ := Procs.runnable_iff.mp hrun
    obtain ⟨T, ht, -⟩ := hok.tables.exists_table hp
    have hfiles : (s.kern.procs.get kop.caller).files = y.files := by rw [Procs.get_of_lookup hp]
    rw [Spares, hcaller, hfiles] at hspare
    obtain ⟨hkop, hcloses⟩ : (SysOp.kern kop).onDescriptors = true ∧
        op.closes n = (SysOp.kern kop).closes n := by
      cases op with
      | kern kop' => exact Option.some.inj hkern ▸ ⟨hop, rfl⟩
      | sock p sop =>
        cases sop with
        | close fd => exact Option.some.inj hkern ▸ ⟨rfl, rfl⟩
        | _ => cases hkern
    rw [hcloses] at hspare
    have hne : ∀ fd : ℤ, (y.files = t → (fd == (n : ℤ)) = false) → t = y.files → fd ≠ n :=
      fun fd hfd htt e => by simpa [e] using hfd htt.symm
    show (kernStep kop s.kern).2.io.slot t n = _
    rw [kernStep, if_pos hrun]
    cases kop with
    | openFile p flags ans =>
      simp only [KernOp.perform, Kern.onFiles]
      rw [show (s.kern.procs.get p).files = y.files from hfiles]
      exact slot_sysOpen hok.tables ht flags ans hn
    | closeFile p fd =>
      simp only [KernOp.perform, Kern.onFiles]
      rw [show (s.kern.procs.get p).files = y.files from hfiles]
      exact slot_sysClose ht (hne fd hspare)
    | dup p fd =>
      simp only [KernOp.perform, Kern.onFiles]
      rw [show (s.kern.procs.get p).files = y.files from hfiles]
      exact slot_sysDup hok.tables ht fd hn
    | dup2 p oldfd newfd =>
      simp only [KernOp.perform, Kern.onFiles]
      rw [show (s.kern.procs.get p).files = y.files from hfiles]
      exact slot_sysDup2 hok.tables ht oldfd (hne newfd hspare)
    | _ => cases hkop

lemma desc_slot_run (ops : List DescOp) (hok : s.Ok) (hn : s.kern.io.slot t n ≠ 0)
    (hspare : Along descStep (fun op => Spares t n op.1) ops s) :
    (runOps descStep ops s).2.Ok ∧ (runOps descStep ops s).2.kern.procs = s.kern.procs ∧
      (runOps descStep ops s).2.kern.io.slot t n = s.kern.io.slot t n := by
  induction ops generalizing s with
  | nil => exact ⟨hok, rfl, rfl⟩
  | cons op ops ih =>
    obtain ⟨hprocs, hslot⟩ := desc_slot hok op hn hspare.1
    have hn' : (descStep op s).2.kern.io.slot t n ≠ 0 := hslot ▸ hn
    obtain ⟨hok', hprocs', hslot'⟩ := ih (hok.step op.1) hn' hspare.2
    exact ⟨hok', hprocs'.trans hprocs, hslot'.trans hslot⟩

lemma denotes_file (hok : s.Ok) (hp : s.kern.procs.table.lookup p = some x)
    {m : ℤ} (hm : socketFdToIndex m = none) :
    s.denotes p m = if 0 ≤ m ∧ m < procMaxFds ∧ s.kern.io.slot x.files m.toNat ≠ 0 then
      some (.file (s.kern.io.slot x.files m.toNat)) else none := by
  obtain ⟨T, ht, -⟩ := hok.tables.exists_table hp
  have hsock : socketGetOwned (s.pid p) m s.socks = none := by
    rw [socketGetOwned, hm]
    rfl
  rw [Sys.denotes, hsock]
  dsimp only
  rw [Procs.get_of_lookup hp, fdGet, slot, get_of_lookup ht, (hok.tables.fits ht).maxFds]
  by_cases hr : 0 ≤ m ∧ m < procMaxFds
  · rw [if_pos hr]
    by_cases h0 : (T.fds m.toNat).file = 0
    · rw [if_pos h0, if_neg fun h => h.2.2 h0]
    · rw [if_neg h0, if_pos ⟨hr.1, hr.2, h0⟩]
  · rw [if_neg hr, if_pos rfl, if_neg fun h => hr ⟨h.1, h.2.1⟩]

end Run

lemma fork_slot {k : Kern} {c n : ℕ} {y : Process} {a : ForkAns} (hk : k.Base)
    (hT : TableOk k.procs k.io.tables) (hp : k.procs.table.lookup p = some y)
    (hnew : c ∉ k.procs.table) (hc : (doFork p 0 a k).2.procs.table.lookup c = some x)
    (hn : n < procMaxFds) :
    (∃ y', (doFork p 0 a k).2.procs.table.lookup p = some y' ∧ y'.files = y.files) ∧
      (doFork p 0 a k).2.io.slot x.files n = k.io.slot y.files n ∧
      (doFork p 0 a k).2.io.slot y.files n = k.io.slot y.files n := by
  obtain hf | ⟨c', x', hf, -⟩ := doFork_cases hk hp 0 a
  · obtain ⟨m, -, hprocs⟩ := hf.procs
    rw [hprocs] at hc
    exact absurd (mem_of_lookup_eq_some hc) hnew
  obtain ⟨rfl, rfl⟩ | ⟨-, x'', hx'', -⟩ := hf.spawn.cases hc
  swap
  · exact absurd (mem_of_lookup_eq_some hx'') hnew
  obtain ⟨T, ht, -⟩ := hT.exists_table hp
  refine ⟨⟨_, (hf.spawn.lookup_old hp).2, by split_ifs <;> rfl⟩, ?_⟩
  obtain ⟨hx0, hcopy⟩ := hf.io
  obtain hcp | ⟨-, hcp⟩ | ⟨-, ha, hcp⟩ := copyFiles_cases y.files 0 a.files k.io
  · rw [hcp] at hcopy
    exact absurd (Prod.mk.inj hcopy).1.symm hx0
  · rw [hcp] at hcopy
    obtain ⟨hxf, hio⟩ := Prod.mk.inj hcopy
    rw [← hxf, ← hio]
    exact ⟨slot_upd_same ht rfl, slot_upd_same ht rfl⟩
  rw [hcp, get_of_lookup ht] at hcopy
  obtain ⟨hxf, hio⟩ := Prod.mk.inj hcopy
  have hya : y.files ≠ a.files := fun e => ha (e ▸ hT.live p y hp)
  rw [← hxf, ← hio]
  simp only [Files.slot, Files.get, cloned_tables, lookup_insert,
    lookup_insert_of_ne _ hya, ht, Option.getD_some, Files.copied, (hT.fits ht).maxFds]
  refine ⟨?_, trivial⟩
  by_cases h0 : (T.fds n).file = 0
  · rw [if_neg fun h => h.2 h0, h0]
  · rw [if_pos ⟨hn, h0⟩]

/-- **Files survive a fork**: a number outside the socket range that is open in the parent of a plain
fork is open in the child, and denotes the same file in both until a process with one of their tables
closes it. -/
theorem fork_run_inherits {k : Kern} {a b : CreateAns} (hk : processInit a b = some k)
    (ops : List SysOp) (p : ℕ) (n : ℤ) (hn : socketFdToIndex n = none) (ans : ForkAns) :
    let s := (runOps sysStep ops (Sys.boot k)).2
    let s' := (sysStep (.kern (.fork p 0 ans)) s).2
    s.kern.procs.runnable p = true → (s.sysClose p n).1.1 ≠ eBadf →
    ∀ c, c ∉ s.kern.procs.table → c ∈ s'.kern.procs.table → (s'.sysClose c n).1.1 ≠ eBadf ∧ ∀ ops' : List DescOp,
        Along descStep (fun op s => ∀ q ∈ [p, c], Spares (s'.kern.procs.get q).files n op.1 s) ops' s' →
        ∃ f, (runOps descStep ops' s').2.denotes p n = some f ∧
          (runOps descStep ops' s').2.denotes c n = some f := by
  intro s s' hrun hopen c hnew hc
  have hok : s.Ok := runOps_inv Sys.Ok (fun op _ h => h.step op) ops (Sys.Ok.boot hk)
  have hok' : s'.Ok := hok.step _
  obtain ⟨y, hp, -⟩ := Procs.runnable_iff.mp hrun
  obtain ⟨x, hx⟩ := mem_iff.mp hc
  have hs' : s'.kern = (doFork p 0 ans s.kern).2 := by
    show (sysStep _ s).2.kern = _
    have hrun' : s.kern.procs.runnable (SysOp.kern (.fork p 0 ans)).caller = true := hrun
    rw [sysStep, if_pos hrun']
    rfl
  -- the slot of the number in both tables
  rw [Ne, sysClose_eBadf_iff, denotes_file hok hp hn] at hopen
  obtain ⟨hpos, hlt, hfile⟩ : 0 ≤ n ∧ n < procMaxFds ∧ s.kern.io.slot y.files n.toNat ≠ 0 := by
    by_contra hno
    exact hopen (if_neg hno)
  rw [hs'] at hx
  obtain ⟨⟨y', hy', hyf⟩, hslotc, hslotp⟩ := fork_slot hok.base hok.tables hp hnew hx
    (show n.toNat < procMaxFds by omega)
  rw [← hs'] at hx hy' hslotc hslotp
  refine ⟨?_, fun ops' hspare => ?_⟩
  · rw [Ne, sysClose_eBadf_iff, denotes_file hok' hx hn, hslotc, if_pos ⟨hpos, hlt, hfile⟩]
    simp
  rw [← Int.toNat_of_nonneg hpos] at hspare
  have hrunp := desc_slot_run ops' hok' (hslotp ▸ hfile)
    (hspare.imp fun op s h => hyf ▸ Procs.get_of_lookup hy' ▸ h p (by simp))
  have hrunc := desc_slot_run ops' hok' (hslotc ▸ hfile)
    (hspare.imp fun op s h => Procs.get_of_lookup hx ▸ h c (by simp))
  obtain ⟨hok'', hprocs, hkeepp⟩ := hrunp
  have hkeepc := hrunc.2.2
  refine ⟨.file (s.kern.io.slot y.files n.toNat), ?_, ?_⟩
  · rw [denotes_file hok'' (hprocs ▸ hy') hn, hyf, hkeepp, hslotp, if_pos ⟨hpos, hlt, hfile⟩]
  · rw [denotes_file hok'' (hprocs ▸ hx) hn, hkeepc, hslotc, if_pos ⟨hpos, hlt, hfile⟩]

theorem fork_run_inherits_small : ∃ k, processInit idleAns initAns = some k ∧
    ((sysStep (.kern (.fork 101 0 childAns))
      (runOps sysStep [.kern (.openFile 101 0 (.ok 300))] (Sys.boot k)).2).2.sysClose 102 3).1.1 ≠
        eBadf := by
  obtain ⟨k, hk, hrunnable, hopen, hnew, hc⟩ := exists_boot (P := fun k =>
    let s := (runOps sysStep [.kern (.openFile 101 0 (.ok 300))] (Sys.boot k)).2
    let s' := (sysStep (.kern (.fork 101 0 childAns)) s).2
    s.kern.procs.runnable 101 = true ∧ (s.sysClose 101 3).1.1 ≠ eBadf ∧
      102 ∉ s.kern.procs.table ∧ 102 ∈ s'.kern.procs.table) (by decide +kernel)
  exact ⟨k, hk, (fork_run_inherits hk [.kern (.openFile 101 0 (.ok 300))] 101 3 rfl
    childAns hrunnable hopen 102 hnew hc).1⟩

theorem fork_loses_pipe : ∃ k, processInit idleAns initAns = some k ∧
    let s := (runOps sysStep [.sock 101 (.socketpair afUnix sockStream 0 true true)] (Sys.boot k)).2
    let s' := (sysStep (.kern (.fork 101 0 childAns)) s).2
    (s.sysClose 101 512).1.1 = 0 ∧ s'.kern.procs.runnable 102 = true ∧
      (s'.sysClose 102 512).1.1 = eBadf := by
  exact exists_boot (by decide +kernel)

end Obelisk
