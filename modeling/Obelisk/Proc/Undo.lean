import Obelisk.Proc.Files

/-!
# A failed fork

`do_fork` with what the processes, address spaces and files leave out: the list of all processes, the
run queues and the credentials.
-/

namespace Obelisk.Undo

open KLib Function Option Finmap Files Procs

variable {c flags p prio : ℕ} {k : Kern} {w : World}

/-- The kernel; `credOf` is the field `cred` of the processes, `creds` holds the reference counts. -/
structure World where
  kern : Kern
  allProcesses : List ℕ
  runQueues : ℕ → List ℕ
  creds : ObjHeap ℤ
  credOf : ℕ → ℕ

/-- What the allocations answer. -/
structure Answers where
  fork : ForkAns
  cred : ℕ
  clone : ℕ

def credFree (a : ℕ) (creds : ObjHeap ℤ) : ObjHeap ℤ :=
  if a = 0 then creds
  else if (creds.lookup a).getD 0 - 1 = 0 then creds.erase a
  else modify a (· - 1) creds

namespace World

def answers (p : ℕ) (a : Answers) (w : World) : ForkAns :=
  { a.fork with
    create := { a.fork.create with cred := a.cred ≠ 0 ∧ a.cred ∉ w.creds }
    cred := w.credOf p ≠ 0 ∧ a.clone ≠ 0 ∧ a.clone ∉ w.creds }

/-- The credentials are the last thing `process_create` allocates. -/
def processCreate (p : ℕ) (a : Answers) (w : World) : ℕ × World :=
  match Obelisk.processCreate p false (w.answers p a).create w.kern with
  | (0, k) => (0, { w with kern := k })
  | (c, k) =>
    (c, { w with
      kern := k
      allProcesses := c :: w.allProcesses
      creds := w.creds.insert a.cred 1
      credOf := update w.credOf c a.cred })

def dropDefaults (c : ℕ) (w : World) : World :=
  { w with
    kern := Obelisk.dropDefaults c w.kern
    creds := credFree (w.credOf c) w.creds
    credOf := update w.credOf c 0 }

def unlist (c : ℕ) (w : World) : World :=
  { w with
    allProcesses := w.allProcesses.erase c
    runQueues := fun i => (w.runQueues i).erase c
    creds := credFree (w.credOf c) w.creds }

/-- The copies of `do_fork`. `copy_cred` is the last one that can fail, so the child that
`process_destroy` is called for has no credentials. -/
def forkChild (c p flags prio : ℕ) (a : Answers) (ans : ForkAns) (w : World) : ℤ × World :=
  match Obelisk.forkChild c p flags ans w.kern with
  | (r, k) =>
    if r < 0 then (r, { w.unlist c with kern := k })
    else
      (r, { w with
        kern := k
        creds := w.creds.insert a.clone 1
        credOf := update w.credOf c a.clone
        runQueues := update w.runQueues prio (w.runQueues prio ++ [c]) })

def doFork (p flags prio : ℕ) (a : Answers) (w : World) : ℤ × World :=
  match w.processCreate p a with
  | (0, w) => (eNomem, w)
  | (c, w') => (w'.dropDefaults c).forkChild c p flags prio a (w.answers p a)

end World

/-- A state of the kernel in which process `p` with data `y` can call `do_fork`: what it refers to is
there, files count at least the slots that refer to them, and the lists hold processes. -/
structure Calls (w : World) (p : ℕ) (y : Process) : Prop where
  base : w.kern.Base
  caller : w.kern.procs.table.lookup p = some y
  space : y.mm = 0 ∨ ∃ c, w.kern.vm.refcount.lookup y.mm = some c ∧ 1 ≤ c
  tables : TableOk w.kern.procs w.kern.io.tables
  files : ∀ f, f ≠ 0 → ∃ m, w.kern.io.count.lookup f = held m ∧ total w.kern.io.tables (FdTable.slots f) ≤ m
  listed : ∀ c ∈ w.allProcesses, c ∈ w.kern.procs.table
  queued : ∀ i, ∀ c ∈ w.runQueues i, c ∈ w.kern.procs.table

/-- The lists, tables and reference counts are the same; `table` includes the lists of children. -/
structure Same (w w' : World) : Prop where
  pidTable : w'.kern.procs.pidTable = w.kern.procs.pidTable
  table : w'.kern.procs.table = w.kern.procs.table
  spaces : w'.kern.vm.refcount = w.kern.vm.refcount
  tables : w'.kern.io.tables = w.kern.io.tables
  files : ∀ f, f ≠ 0 → w'.kern.io.count.lookup f = w.kern.io.count.lookup f
  allProcesses : w'.allProcesses = w.allProcesses
  runQueues : w'.runQueues = w.runQueues
  creds : w'.creds = w.creds

/-! ## Processes, address spaces and files -/

section Parts

variable {k k' : Kern} {p flags : ℕ} {y : Process} {a : ForkAns}

lemma forkFails_of_neg (hk : k.Base) (hp : k.procs.table.lookup p = some y)
    (h : (Obelisk.doFork p flags a k).1 < 0) : ForkFails y flags a k (Obelisk.doFork p flags a k).2 := by
  obtain hf | ⟨_, _, _, _, hr⟩ := doFork_cases hk hp flags a
  · exact hf
  · exact absurd h (not_lt.mpr hr)

lemma forkFails_spaces (hk : k.Base) (hy : y.mm = 0 ∨ ∃ c, k.vm.refcount.lookup y.mm = some c ∧ 1 ≤ c)
    (hf : ForkFails y flags a k k') : k'.vm.refcount = k.vm.refcount := by
  obtain ⟨V, hV, hvm | ⟨m, hm, hm0, hvm⟩⟩ := hf.vm
  · rw [hvm, hV.refcount]
  rw [hvm, hm, ← hV.refcount]
  obtain hcp | ⟨hy0, hcp⟩ | ⟨ha0, ha, hcp⟩ := V.copyMm_cases y.mm flags a.mm
  · exact absurd (by rw [hm, hcp]) hm0
  · obtain ⟨c, hc, hc1⟩ := hy.resolve_left hy0
    rw [hcp, Spaces.release_share (hV.refcount ▸ hc) (by omega)]
  have haK : a.mm ≠ kernelAs := fun hK => ha (hV.refcount ▸ hK ▸ hk.mem_kernelAs)
  rw [hcp, Spaces.release_create ha ha0 haK]
  rfl

lemma forkFails_count (hT : TableOk k.procs k.io.tables) (hp : k.procs.table.lookup p = some y)
    (hf : ForkFails y flags a k k') {f m : ℕ} (hf0 : f ≠ 0) (hm : k.io.count.lookup f = held m)
    (hle : total k.io.tables (FdTable.slots f) ≤ m) : k'.io.count.lookup f = k.io.count.lookup f := by
  obtain ⟨T, hy, hT1⟩ := hT.exists_table hp
  obtain hio | ⟨r, hr, hio⟩ := hf.io
  · rw [hio]
  obtain hcp | ⟨hy0, hcp⟩ | ⟨ha0, ha, hcp⟩ := copyFiles_cases y.files flags a.files k.io
  · rw [hio, hr, hcp]
    rfl
  · have hup : (k.io.upd y.files fun T => { T with refcount := T.refcount + 1 }).tables.lookup
        y.files = some { T with refcount := T.refcount + 1 } := by
      rw [upd_tables hy, lookup_insert]
    rw [hio, hr, hcp, fdTableFree_more hy0 hup (by dsimp only; omega)]
    rfl
  have hslots := (le_total (w := FdTable.slots f) hy).trans hle
  have hcount : (cloned T a.files k.io).count.lookup f = held (m + T.slots f) :=
    cloneLoop_count (s := { k.io with tables := k.io.tables.insert a.files .fresh }) hf0 hm _
      fun hpos => hpos.trans_le hslots
  obtain ⟨T', hT', hr', hs'⟩ : ∃ T', (cloned T a.files k.io).tables.lookup a.files = some T' ∧
      T'.refcount = 1 ∧ T'.slots f = T.slots f :=
    ⟨_, by rw [cloned_tables, lookup_insert], rfl, copied_slots (hT.fits hy).maxFds⟩
  rw [FdTable.slots] at hs'
  rw [hio, hr, hcp, get_of_lookup hy, fdTableFree_eq ha0 hT' hr', hm]
  refine (freeLoop_count hf0 hcount _ (by rw [hs']; omega)).trans ?_
  rw [hs', Nat.add_sub_cancel]

end Parts

/-! ## The whole call -/

lemma credFree_zero (creds : ObjHeap ℤ) : credFree 0 creds = creds := if_pos rfl

lemma credFree_insert {creds : ObjHeap ℤ} {a : ℕ} (h0 : a ≠ 0) (h : a ∉ creds) :
    credFree a (creds.insert a 1) = creds := by
  rw [credFree, if_neg h0, lookup_insert]
  exact (if_pos rfl).trans (erase_insert_new h)

lemma processCreate_ok {cur : ℕ} {a : CreateAns} {k' : Kern}
    (h : Obelisk.processCreate cur false a k = (c, k')) (hc : c ≠ 0) :
    a.cred = true ∧ c ∉ k.procs.table := by
  unfold Obelisk.processCreate at h
  split at h
  · exact absurd (congrArg Prod.fst h).symm hc
  · next hfresh =>
    split at h
    · exact absurd (congrArg Prod.fst h).symm hc
    simp only [Bool.false_eq_true, if_false] at h
    split_ifs at h with h1 h2 h3
    · exact absurd (congrArg Prod.fst h).symm hc
    · exact absurd (congrArg Prod.fst h).symm hc
    · exact absurd (congrArg Prod.fst h).symm hc
    obtain rfl : a.proc = c := congrArg Prod.fst h
    exact ⟨by simpa using h3, (not_or.mp hfresh).2⟩

lemma doFork_created {a : Answers}
    (h : Obelisk.processCreate p false (w.answers p a).create w.kern = (c, k)) (hc : c ≠ 0) :
    w.doFork p flags prio a = World.forkChild c p flags prio a (w.answers p a) { w with
        kern := Obelisk.dropDefaults c k
        allProcesses := c :: w.allProcesses
        creds := credFree a.cred (w.creds.insert a.cred 1)
        credOf := update w.credOf c 0 } := by
  cases c with
  | zero => exact absurd rfl hc
  | succ c => simp [World.doFork, World.processCreate, h, World.dropDefaults]

lemma doFork_kern (w : World) (p flags prio : ℕ) (a : Answers) :
    (w.doFork p flags prio a).1 = (Obelisk.doFork p flags (w.answers p a) w.kern).1 ∧
    (w.doFork p flags prio a).2.kern = (Obelisk.doFork p flags (w.answers p a) w.kern).2 := by
  rcases h : Obelisk.processCreate p false (w.answers p a).create w.kern with ⟨_ | c, k⟩
  · simp [World.doFork, World.processCreate, Obelisk.doFork, h]
  rw [doFork_created h (Nat.succ_ne_zero c), Obelisk.doFork, h]
  dsimp only [World.forkChild]
  by_cases hr : (Obelisk.forkChild (c + 1) p flags (w.answers p a)
    (Obelisk.dropDefaults (c + 1) k)).1 < 0 <;> simp [hr]

lemma doFork_lists {y : Process} {a : Answers} (h : Calls w p y)
    (hr : (w.doFork p flags prio a).1 < 0) :
    (w.doFork p flags prio a).2.allProcesses = w.allProcesses ∧
      (w.doFork p flags prio a).2.runQueues = w.runQueues ∧
      (w.doFork p flags prio a).2.creds = w.creds := by
  rcases hc : Obelisk.processCreate p false (w.answers p a).create w.kern with ⟨_ | c, k⟩
  · simp [World.doFork, World.processCreate, hc]
  obtain ⟨hcred, hfresh⟩ := processCreate_ok hc (Nat.succ_ne_zero c)
  have hcred : a.cred ≠ 0 ∧ a.cred ∉ w.creds := by simpa [World.answers] using hcred
  rw [doFork_created hc (Nat.succ_ne_zero c)] at hr ⊢
  have hneg : (Obelisk.forkChild (c + 1) p flags (w.answers p a)
      (Obelisk.dropDefaults (c + 1) k)).1 < 0 := by
    by_contra hn
    simp [World.forkChild, hn] at hr
  have hq : ∀ i, (w.runQueues i).erase (c + 1) = w.runQueues i := fun i =>
    List.erase_of_not_mem fun hm => hfresh (h.queued i _ hm)
  simp [World.forkChild, hneg, World.unlist, hq, credFree_insert hcred.1 hcred.2, credFree_zero]

/-- **A failed fork leaves no trace**: in every state, for all flags and whatever the allocators
answer, a negative result means that nothing has changed. -/
theorem doFork_undone (w : World) (p flags prio : ℕ) (y : Process) (a : Answers) (h : Calls w p y)
    (hr : (w.doFork p flags prio a).1 < 0) : Same w (w.doFork p flags prio a).2 := by
  obtain ⟨h1, h2⟩ := doFork_kern w p flags prio a
  obtain ⟨hall, hrun, hcreds⟩ := doFork_lists h hr
  have hf := forkFails_of_neg h.base h.caller (h1 ▸ hr)
  rw [← h2] at hf
  obtain ⟨n, -, hprocs⟩ := hf.procs
  refine ⟨by rw [hprocs]; rfl, by rw [hprocs]; rfl, forkFails_spaces h.base h.space hf,
    (hf.io_tables h.tables h.caller).1, fun f hf0 => ?_, hall, hrun, hcreds⟩
  obtain ⟨m, hm, hle⟩ := h.files f hf0
  exact forkFails_count h.tables h.caller hf hf0 hm hle

def booted (k : Kern) : World where
  kern := k
  allProcesses := [101, 100]
  runQueues := fun _ => []
  creds := (∅ : ObjHeap ℤ).insert 300 1
  credOf := fun _ => 300

/-- `init` forks and there is no memory for a copy of its descriptor table. -/
theorem doFork_undone_boot : ∃ w y, Calls w 101 y ∧
    (w.doFork 101 0 64 ⟨⟨⟨102, true, 11, 202, true⟩, 11, 0, true⟩, 301, 302⟩).1 < 0 ∧
    Same w (w.doFork 101 0 64 ⟨⟨⟨102, true, 11, 202, true⟩, 11, 0, true⟩, 301, 302⟩).2 := by
  obtain ⟨k, hk, hr, hmm, hl⟩ := exists_boot (P := fun k =>
    ((booted k).doFork 101 0 64 ⟨⟨⟨102, true, 11, 202, true⟩, 11, 0, true⟩, 301, 302⟩).1 < 0 ∧
    (k.procs.get 101).mm = kernelAs ∧ [101, 100].all (fun c => (k.procs.table.lookup c).isSome) = true)
    (by decide +kernel)
  have hmem : ∀ c ∈ [101, 100], c ∈ k.procs.table := fun c hc =>
    lookup_isSome.mp (List.all_eq_true.mp hl c hc)
  obtain ⟨y, hy⟩ := mem_iff.mp (hmem 101 (by simp))
  obtain ⟨hT, hF⟩ := processInit_files hk
  have hbase := (processInit_mm hk).1
  have hc : Calls (booted k) 101 y := by
    refine ⟨hbase, hy, .inr ?_, hT, fun f hf => ⟨_, hF f hf, le_rfl⟩, hmem, nofun⟩
    obtain ⟨c, hc, hle⟩ := hbase.kernel
    rw [get_of_lookup hy] at hmm
    exact ⟨c, hmm ▸ hc, by omega⟩
  exact ⟨booted k, y, hc, hr, doFork_undone _ _ _ _ y _ hc hr⟩

end Obelisk.Undo
