import Obelisk.Proc.Space

/-!
# Parents and children

- `tree_run_wellFormed`: when the process tree stays well formed.
-/

namespace Obelisk

open KLib List Option

def Procs.LinkedAt (P : Procs) (q p : ℕ) : Prop :=
  (∃ y, P.table.lookup q = some y ∧ P.pidTable y.pid = q ∧ y.children.count p = 1) ∧
    ∀ q' y, P.table.lookup q' = some y → p ∈ y.children → q' = q

/-- Every process in `pid_table` has no parent or one in `pid_table`, on whose list it is. -/
def Procs.WellFormed (P : Procs) : Prop :=
  ∀ pid, P.pidTable pid ≠ 0 → ∃ x, P.table.lookup (P.pidTable pid) = some x ∧
    (x.parent = 0 ∨ P.LinkedAt x.parent (P.pidTable pid))

def ReapsChildless (op : KernOp) (k : Kern) : Prop :=
  match op with
  | .wait p pid => k.procs.runnable p = true → ∀ z, k.procs.zombieChild p pid = some z →
      (k.procs.get z).children = []
  | _ => True

namespace Procs

variable {P P' : Procs} {p c z : ℕ} {x y : Process}

def HasParents (P : Procs) : Prop :=
  ∀ p x, P.table.lookup p = some x → x.parent ≠ 0 → ∃ y, P.table.lookup x.parent = some y ∧ p ∈ y.children

lemma Tree.wellFormed_iff (h : Tree P) : P.WellFormed ↔ P.HasParents := by
  constructor
  · intro hw p x hp hne
    have hpid := (h.node hp).pidTable
    obtain ⟨x', hx', hpar⟩ := hw x.pid (hpid ▸ (h.node hp).ne_zero)
    rw [hpid, hp] at hx'
    cases hx'
    obtain ⟨⟨y, hy, -, hcount⟩, -⟩ := hpar.resolve_left hne
    rw [hpid] at hcount
    exact ⟨y, hy, count_pos_iff.mp (by omega)⟩
  intro hw pid hne
  obtain ⟨x, hx, -⟩ := h.find pid hne
  refine ⟨x, hx, or_iff_not_imp_left.mpr fun hpar => ?_⟩
  obtain ⟨y, hy, hmem⟩ := hw _ x hx hpar
  refine ⟨⟨y, hy, (h.node hy).pidTable, ?_⟩, fun q' y' hy' hmem' => ?_⟩
  · exact count_eq_one_of_mem (h.node hy).nodup hmem
  obtain ⟨x', hx', hpar', -⟩ := (h.node hy').child _ hmem'
  rw [hx] at hx'
  cases hx'
  exact hpar'.symm

lemma HasParents.spawn (h : HasParents P) (hs : Spawn P P' c x)
    (hpar : x.parent ≠ 0 → x.parent ∈ P.table) : HasParents P' := by
  -- the processes of `P` keep the children that they have
  have hold : ∀ q y, P.table.lookup q = some y → ∃ y', P'.table.lookup q = some y' ∧
      y'.parent = y.parent ∧ y.children ⊆ y'.children := fun q y hq => by
    refine ⟨_, (hs.lookup_old hq).2, ?_⟩
    split_ifs
    · exact ⟨rfl, subset_cons_self ..⟩
    · exact ⟨rfl, List.Subset.refl _⟩
  intro q y hq hne
  obtain ⟨rfl, rfl⟩ | ⟨-, y', hy', rfl⟩ := hs.cases hq
  · obtain ⟨w, hw⟩ := Finmap.mem_iff.mp (hpar hne)
    refine ⟨_, (hs.lookup_old hw).2, ?_⟩
    rw [if_pos rfl]
    exact mem_cons_self
  have hsame : (if q = x.parent then addChild c y' else y').parent = y'.parent := by
    split_ifs <;> rfl
  rw [hsame] at hne ⊢
  obtain ⟨w, hw, hmem⟩ := h q y' hy' hne
  obtain ⟨w', hw', -, hsub⟩ := hold _ w hw
  exact ⟨w', hw', hsub hmem⟩

lemma HasParents.upd (h : HasParents P) {f : Process → Process}
    (hpar : ∀ x, (f x).parent = x.parent) (hch : ∀ x, (f x).children = x.children) :
    HasParents (P.upd p f) := by
  intro q y hq hne
  obtain ⟨y', hy', hyp⟩ : ∃ y', P.table.lookup q = some y' ∧ y.parent = y'.parent := by
    rw [Procs.upd, lookup_modify] at hq
    split_ifs at hq with hqp
    · obtain ⟨y', hy', rfl⟩ := map_eq_some_iff.mp hq
      exact ⟨y', hqp ▸ hy', hpar y'⟩
    · exact ⟨y, hq, rfl⟩
  rw [hyp] at hne ⊢
  obtain ⟨w, hw, hmem⟩ := h q y' hy' hne
  rw [Procs.upd, lookup_modify]
  split_ifs with hwp
  · rw [← hwp, hw]
    exact ⟨f w, rfl, hch w ▸ hmem⟩
  · exact ⟨w, hw, hmem⟩

lemma Tree.hasParents_unlink (hT : Tree P) (h : HasParents P) (hz : P.table.lookup z = some x)
    (hself : x.parent ≠ z) : HasParents (P.unlink z) ↔ x.children = [] := by
  constructor
  · intro h'
    refine eq_nil_iff_forall_not_mem.mpr fun c hc => ?_
    obtain ⟨y, hy, hpar, -⟩ := (hT.node hz).child c hc
    have hcz : c ≠ z := by
      rintro rfl
      rw [hz] at hy
      exact hself (some.inj hy ▸ hpar)
    -- the child is still there, and its parent is not
    have hchild := unlink_lookup hz hcz
    rw [hy, map_some] at hchild
    obtain ⟨w, hw, -⟩ := h' c _ hchild (by
      split_ifs <;> exact hpar ▸ (hT.node hz).ne_zero)
    have hgone : (if c = x.parent then { y with children := y.children.erase z } else y).parent = z := by
      split_ifs <;> exact hpar
    rw [hgone] at hw
    exact (unlink_cases hz hw).1 rfl
  intro hnone q y hq hne
  obtain ⟨hqz, y', hy', rfl⟩ := unlink_cases hz hq
  have hsame : (if q = x.parent then { y' with children := y'.children.erase z } else y').parent =
      y'.parent := by split_ifs <;> rfl
  rw [hsame] at hne ⊢
  obtain ⟨w, hw, hmem⟩ := h q y' hy' hne
  have hwz : y'.parent ≠ z := by
    intro hwz
    rw [hwz, hz] at hw
    rw [← some.inj hw, hnone] at hmem
    cases hmem
  have hlook := unlink_lookup hz hwz
  rw [hw, map_some] at hlook
  refine ⟨_, hlook, ?_⟩
  split_ifs
  · exact (mem_erase_of_ne hqz).mpr hmem
  · exact hmem

end Procs

variable {k : Kern}

section

variable (h : k.procs.HasParents) (hk : k.Base)
include h hk

lemma doExecve_hasParents {p : ℕ} {y : Process} (hp : k.procs.table.lookup p = some y) (a : ℕ) (ok : Bool) :
    (doExecve p a ok k).2.procs.HasParents := by
  obtain ⟨-, he⟩ | ⟨-, -, -, he⟩ | ⟨-, -, -, he⟩ := doExecve_cases hk hp a ok
  · rw [he]
    exact h
  · rw [he]
    exact h
  rw [he]
  exact h.upd (fun _ => rfl) fun _ => rfl

lemma doFork_hasParents {p flags : ℕ} {y : Process} (hp : k.procs.table.lookup p = some y) (a : ForkAns) :
    (doFork p flags a k).2.procs.HasParents := by
  obtain hf | ⟨c, x, hf, hpar, -⟩ := doFork_cases hk hp flags a
  · obtain ⟨n, -, hprocs⟩ := hf.procs
    rw [hprocs]
    exact h
  refine h.spawn hf.spawn fun hne => ?_
  obtain hpar | hpar := hpar
  · rw [hpar]
    exact Finmap.mem_of_lookup_eq_some hp
  rw [hpar] at hne ⊢
  obtain ⟨w, hw, -⟩ := h p y hp hne
  exact Finmap.mem_of_lookup_eq_some hw

lemma doWait_hasParents_iff {p : ℕ} (hrun : k.procs.runnable p = true) (pid : ℤ) :
    (doWait p pid k).2.procs.HasParents ↔ ReapsChildless (.wait p pid) k := by
  rw [doWait]
  cases hz : k.procs.zombieChild p pid with
  | none =>
    refine iff_of_true h fun _ z hz' => ?_
    rw [hz] at hz'
    cases hz'
  | some z =>
    obtain ⟨x, hx, -, hpar, hstate⟩ := Procs.zombieChild_spec hk.tree hz
    -- the caller is running, so it is not the zombie
    have hself : x.parent ≠ z := by
      rintro he
      obtain ⟨y, hy, -, hne, -⟩ := Procs.runnable_iff.mp hrun
      rw [← hpar, he, hx] at hy
      exact hne (some.inj hy ▸ hstate)
    show (k.procs.unlink z).HasParents ↔ _
    rw [hk.tree.hasParents_unlink h hx hself]
    constructor
    · intro hnone _ z' hz'
      rw [hz] at hz'
      rw [← some.inj hz', Procs.get_of_lookup hx]
      exact hnone
    intro hnone
    have hnil := hnone hrun z hz
    rwa [Procs.get_of_lookup hx] at hnil

lemma hasParents_step_iff (op : KernOp) :
    (kernStep op k).2.procs.HasParents ↔ ReapsChildless op k := by
  rw [kernStep]
  split_ifs with hrun
  · obtain ⟨y, hp, -⟩ := Procs.runnable_iff.mp hrun
    cases op with
    | execve p a ok => exact iff_of_true (doExecve_hasParents h hk hp a ok) trivial
    | fork p flags a => exact iff_of_true (doFork_hasParents h hk hp a) trivial
    | exit p code => exact iff_of_true (h.upd (fun _ => rfl) fun _ => rfl) trivial
    | wait p pid => exact doWait_hasParents_iff h hk hrun pid
    | openFile | closeFile | dup | dup2 => exact iff_of_true h trivial
  refine iff_of_true h ?_
  cases op with
  | wait p pid => exact fun hrun' => absurd hrun' hrun
  | _ => trivial

end

lemma processInit_hasParents {a b : CreateAns} (h : processInit a b = some k) :
    k.procs.HasParents := by
  obtain ⟨i, x, k1, j, y, hx, -, hy⟩ := processInit_spec h
  have hempty : Kern.empty.procs.HasParents := fun p z hp => by cases hp
  exact (hempty.spawn hx.spawn fun hne => absurd hx.parent hne).spawn hy.spawn fun hne => absurd hy.parent hne

/-- **The process tree stays well formed** after every call of a run exactly if every process that
`do_wait` reaps has no children left. -/
theorem tree_run_wellFormed {a b : CreateAns} (hk : processInit a b = some k) (ops : List KernOp) :
    (∀ pre, pre <+: ops → (runOps kernStep pre k).2.procs.WellFormed) ↔
      Along kernStep ReapsChildless ops k := by
  have hbase := (processInit_mm hk).1
  have hall : ∀ pre, (runOps kernStep pre k).2.Base := fun pre =>
    runOps_inv Kern.Base (fun op _ h => h.step op) pre hbase
  have hiff := forall_prefix_iff_along (fun k : Kern => k.Base ∧ k.procs.HasParents)
    (fun op k h => (and_iff_right (h.1.step op)).trans (hasParents_step_iff h.2 h.1 op)) ops
    ⟨hbase, processInit_hasParents hk⟩
  rw [← hiff]
  exact forall₂_congr fun pre _ => (hall pre).tree.wellFormed_iff.trans (and_iff_right (hall pre)).symm

theorem tree_run_wellFormed_small : ∃ k, processInit idleAns initAns = some k ∧
    (runOps kernStep [.fork 101 0 childAns, .exit 102 0,
      .wait 101 (-1)] k).2.procs.WellFormed := by
  obtain ⟨k, hk, hz, hnone⟩ := exists_boot (P := fun k =>
    let k := (runOps kernStep [.fork 101 0 childAns,
      .exit 102 0] k).2
    k.procs.zombieChild 101 (-1) = some 102 ∧ (k.procs.get 102).children = []) (by decide +kernel)
  have halong : Along kernStep ReapsChildless [.fork 101 0 childAns,
      .exit 102 0, .wait 101 (-1)] k := by
    refine ⟨trivial, trivial, fun _ z hz' => ?_, trivial⟩
    rw [← some.inj (hz.symm.trans hz')]
    exact hnone
  exact ⟨k, hk, (tree_run_wellFormed hk _).mpr halong _ prefix_rfl⟩

/-- A process forks a child, exits and is reaped: its child stays in `pid_table` with a parent that is
gone. -/
theorem orphan_keeps_parent : ∃ k, processInit idleAns initAns = some k ∧
    let k' := (runOps kernStep [.fork 101 0 childAns,
      .fork 102 0 ⟨⟨103, true, 12, 203, true⟩, 12, 203, true⟩, .exit 102 0, .wait 101 (-1)] k).2
    k'.procs.pidTable 4 = 103 ∧ (k'.procs.get 103).parent = 102 ∧ 102 ∉ k'.procs.table := by
  exact exists_boot (by decide +kernel)

end Obelisk
