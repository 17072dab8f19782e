import Obelisk.Proc.Space

/-!
# Waiting for a child

The loop of `do_wait`, with what it stores through `status` and with its options.
-/

namespace Obelisk

open KLib List Option

def wNohang : ℕ := 1

def waitStatus (code : ℤ) : ℤ := (code * 2 ^ 8).bmod (2 ^ 32)

/-- One turn of the loop of `do_wait`, called by process `p`: the value returned with what is stored
through `status`, or `none` if the caller yields. -/
def waitTurn (p : ℕ) (pid : ℤ) (options : ℕ) (k : Kern) : Option (ℤ × Option ℤ) × Kern :=
  match k.procs.zombieChild p pid with
  | some z =>
    (some ((k.procs.get z).pid, some (waitStatus (k.procs.get z).exitCode)), processDestroy z k)
  | none =>
    if (k.procs.get p).children.isEmpty then (some (eChild, none), k)
    else if hasBit options wNohang then (some (0, none), k)
    else (none, k)

def schedulerYield (p : ℕ) (ops : List KernOp) (k : Kern) : Kern :=
  (runOps kernStep (ops.filter (·.caller ≠ p)) k).2

/-- `do_wait`, called by process `p`; `yields` are the calls of the others at each yield, and `none` says
that the caller still waits after the last of them. -/
def doWaitLoop (p : ℕ) (pid : ℤ) (options : ℕ) : List (List KernOp) → Kern → Option (ℤ × Option ℤ) × Kern
  | [], k => waitTurn p pid options k
  | ops :: yields, k =>
    match waitTurn p pid options k with
    | (none, k) => doWaitLoop p pid options yields (schedulerYield p ops k)
    | r => r

def waitTurns (p : ℕ) (pid : ℤ) (options : ℕ) : List (List KernOp) → Kern → List Kern
  | [], k => [k]
  | ops :: yields, k =>
    if (waitTurn p pid options k).1 = none then
      k :: waitTurns p pid options yields (schedulerYield p ops k)
    else [k]

def lastTurn (p : ℕ) (pid : ℤ) (options : ℕ) : List (List KernOp) → Kern → Kern
  | [], k => k
  | ops :: yields, k =>
    if (waitTurn p pid options k).1 = none then
      lastTurn p pid options yields (schedulerYield p ops k)
    else k

def Procs.Matches (P : Procs) (p : ℕ) (pid : ℤ) (c : ℕ) : Prop :=
  c ∈ (P.get p).children ∧ (pid = -1 ∨ (P.get c).pid = pid)

/-- What `do_wait` has to return. -/
structure WaitRight (p : ℕ) (pid : ℤ) (options : ℕ) (yields : List (List KernOp))
    (k : Kern) :
    Prop where
  echild : (∃ status, (doWaitLoop p pid options yields k).1 = some (eChild, status)) ↔
    ∃ t ∈ waitTurns p pid options yields k, ∀ c, ¬ t.procs.Matches p pid c
  reaped : ∀ ret status, (doWaitLoop p pid options yields k).1 = some (ret, status) → 0 < ret →
    ∃ z x, (lastTurn p pid options yields k).procs.Matches p pid z ∧
      (lastTurn p pid options yields k).procs.table.lookup z = some x ∧ x.state = .zombie ∧
      ret = x.pid ∧ status = some (waitStatus x.exitCode) ∧
      z ∉ (doWaitLoop p pid options yields k).2.procs.table
  nohang : hasBit options wNohang = true → (∃ status, (doWaitLoop p pid options yields k).1 = some (0, status)) →
    (∃ c, k.procs.Matches p pid c) ∧ ∀ c, k.procs.Matches p pid c → (k.procs.get c).state ≠ .zombie

variable {p : ℕ} {pid : ℤ} {options : ℕ} {k : Kern} {z : ℕ}

/-! ## One turn -/

lemma zombieChild_some (hz : k.procs.zombieChild p pid = some z) :
    k.procs.Matches p pid z ∧ ∃ x, k.procs.table.lookup z = some x ∧ x.state = .zombie := by
  have hmem := mem_of_find?_eq_some hz
  have hstate := find?_some hz
  simp only [Bool.and_eq_true, Bool.or_eq_true, beq_iff_eq] at hstate
  refine ⟨⟨hmem, hstate.1⟩, ?_⟩
  cases hx : k.procs.table.lookup z with
  | none =>
    rw [Procs.get, hx] at hstate
    cases hstate.2
  | some x => exact ⟨x, rfl, by rw [← hstate.2, Procs.get_of_lookup hx]⟩

lemma zombieChild_none (hz : k.procs.zombieChild p pid = none) {c : ℕ}
    (hc : k.procs.Matches p pid c) : (k.procs.get c).state ≠ .zombie := by
  intro hstate
  have := find?_eq_none.mp hz c hc.1
  simp only [Bool.and_eq_true, Bool.or_eq_true, beq_iff_eq] at this
  exact this ⟨hc.2, hstate⟩

lemma waitTurn_cases {ret : ℤ} {status : Option ℤ} (h : (waitTurn p pid options k).1 = some (ret, status)) :
    (∃ z, k.procs.zombieChild p pid = some z ∧ ret = (k.procs.get z).pid ∧
      status = some (waitStatus (k.procs.get z).exitCode) ∧
      (waitTurn p pid options k).2 = processDestroy z k) ∨
    (k.procs.zombieChild p pid = none ∧ (k.procs.get p).children = [] ∧ ret = eChild) ∨
    (k.procs.zombieChild p pid = none ∧ (k.procs.get p).children ≠ [] ∧ ret = 0) := by
  rw [waitTurn] at h ⊢
  cases hz : k.procs.zombieChild p pid with
  | some z =>
    rw [hz] at h
    cases h
    exact .inl ⟨z, rfl, rfl, rfl, rfl⟩
  | none =>
    rw [hz] at h
    dsimp only at h
    split_ifs at h with hempty
    · exact .inr (.inl ⟨rfl, isEmpty_iff.mp hempty, (Prod.mk.inj (some.inj h)).1.symm⟩)
    exact .inr (.inr ⟨rfl, fun hnil => hempty (isEmpty_iff.mpr hnil), (Prod.mk.inj (some.inj h)).1.symm⟩)

lemma waitTurn_childless (h : (k.procs.get p).children = []) :
    (waitTurn p pid options k).1 = some (eChild, none) := by
  have hz : k.procs.zombieChild p pid = none := by rw [Procs.zombieChild, h, find?_nil]
  rw [waitTurn, hz]
  dsimp only
  rw [if_pos (isEmpty_iff.mpr h)]

lemma waitTurn_echild {status : Option ℤ}
    (h : (waitTurn p pid options k).1 = some (eChild, status)) : (k.procs.get p).children = [] := by
  obtain ⟨z, -, hret, -⟩ | ⟨-, hnil, -⟩ | ⟨-, -, hret⟩ := waitTurn_cases h
  · exact absurd hret (by simp only [eChild]; omega)
  · exact hnil
  · exact absurd hret (by decide)

lemma waitTurn_yields {k' : Kern} (h : waitTurn p pid options k = (none, k')) : k' = k := by
  rw [waitTurn] at h
  split at h
  · cases h
  split_ifs at h
  · cases h
  · cases h
  · exact (Prod.mk.inj h).2.symm

lemma waitTurn_nohang (h : hasBit options wNohang = true) :
    (waitTurn p pid options k).1 ≠ none := by
  rw [waitTurn, if_pos h]
  split
  · exact some_ne_none _
  split_ifs <;> exact some_ne_none _

lemma doWait_eq_lastTurn (p : ℕ) (pid : ℤ) (options : ℕ) (yields : List (List KernOp)) (k : Kern) :
    doWaitLoop p pid options yields k = waitTurn p pid options (lastTurn p pid options yields k) := by
  induction yields generalizing k with
  | nil => rfl
  | cons ops yields ih =>
    rw [doWaitLoop, lastTurn]
    cases hturn : waitTurn p pid options k with
    | mk r k' =>
    cases r with
    | some r => exact hturn.symm
    | none =>
      rw [if_pos rfl, waitTurn_yields hturn]
      exact ih _

lemma lastTurn_mem (p : ℕ) (pid : ℤ) (options : ℕ) (yields : List (List KernOp)) (k : Kern) :
    lastTurn p pid options yields k ∈ waitTurns p pid options yields k := by
  induction yields generalizing k with
  | nil => exact mem_singleton_self k
  | cons ops yields ih =>
    rw [lastTurn, waitTurns]
    split_ifs
    · exact mem_cons_of_mem _ (ih _)
    · exact mem_singleton_self k

lemma lastTurn_nohang (h : hasBit options wNohang = true) (yields : List (List KernOp)) :
    lastTurn p pid options yields k = k := by
  cases yields with
  | nil => rfl
  | cons ops yields => rw [lastTurn, if_neg (waitTurn_nohang h)]

/-- **`do_wait` returns for the right child** exactly if every turn of its loop finds a child that it
is asked for, or the last one finds no child at all. -/
theorem doWait_right_iff (hk : k.procs.Tree) (p : ℕ) (pid : ℤ) (options : ℕ) (yields : List (List KernOp)) :
    WaitRight p pid options yields k ↔ (((lastTurn p pid options yields k).procs.get p).children = [] ∨
        ∀ t ∈ waitTurns p pid options yields k, ∃ c, t.procs.Matches p pid c) := by
  have hlast := doWait_eq_lastTurn p pid options yields k
  constructor
  · intro h
    rw [or_iff_not_imp_right]
    intro hmiss
    push Not at hmiss
    obtain ⟨status, hret⟩ := h.echild.mpr hmiss
    rw [hlast] at hret
    exact waitTurn_echild hret
  intro h
  constructor
  case echild =>
    rw [hlast]
    constructor
    · rintro ⟨status, hret⟩
      refine ⟨_, lastTurn_mem p pid options yields k, fun c hc => ?_⟩
      have hmem := hc.1
      rw [waitTurn_echild hret] at hmem
      cases hmem
    rintro ⟨t, ht, hnone⟩
    obtain hnil | hall := h
    · exact ⟨none, waitTurn_childless hnil⟩
    obtain ⟨c, hc⟩ := hall t ht
    exact absurd hc (hnone c)
  case reaped =>
    intro ret status hret hpos
    rw [hlast] at hret ⊢
    obtain ⟨z, hz, rfl, rfl, hdestroy⟩ | ⟨-, -, rfl⟩ | ⟨-, -, rfl⟩ := waitTurn_cases hret
    · obtain ⟨hmatch, x, hx, hstate⟩ := zombieChild_some hz
      refine ⟨z, x, hmatch, hx, hstate, ?_, ?_, ?_⟩
      · rw [Procs.get_of_lookup hx]
      · rw [Procs.get_of_lookup hx]
      rw [hdestroy, processDestroy, Procs.unlink_table hx]
      exact Finmap.notMem_erase_self
    · exact absurd hpos (by decide)
    · exact absurd hpos (by decide)
  case nohang =>
    rintro hopt ⟨status, hret⟩
    rw [hlast, lastTurn_nohang hopt] at hret
    rw [lastTurn_nohang hopt] at h
    obtain ⟨z, hz, hzero, -⟩ | ⟨-, -, hzero⟩ | ⟨hz, hne, -⟩ := waitTurn_cases hret
    · obtain ⟨-, x, hx, -⟩ := zombieChild_some hz
      rw [Procs.get_of_lookup hx] at hzero
      have := (hk.node hx).pid_lt
      omega
    · exact absurd hzero (by decide)
    refine ⟨?_, fun c => zombieChild_none hz⟩
    have hmem := lastTurn_mem p pid options yields k
    rw [lastTurn_nohang hopt] at hmem
    exact h.resolve_left hne k hmem

theorem doWait_right_small : ∃ k, processInit idleAns initAns = some k ∧
    WaitRight 101 (-1) 0 [[], [.exit 102 7]]
      (kernStep (.fork 101 0 childAns) k).2 := by
  obtain ⟨k, hk, hturns⟩ := exists_boot (P := fun k => ((waitTurns 101 (-1) 0 [[], [.exit 102 7]]
    (kernStep (.fork 101 0 childAns) k).2).all
      fun t => decide (102 ∈ (t.procs.get 101).children)) = true) (by decide +kernel)
  have hbase := ((processInit_mm hk).1.step (.fork 101 0 childAns)).tree
  exact ⟨k, hk, (doWait_right_iff hbase 101 (-1) 0 _).mpr
    (.inr fun t ht => ⟨102, of_decide_eq_true (all_eq_true.mp hturns t ht), .inl rfl⟩)⟩

/-- `init` has one child, process `3`, and asks for process `7`: it goes on waiting, and with `WNOHANG`
the call returns `0`. -/
theorem doWait_names_no_child : ∃ k, processInit idleAns initAns = some k ∧
    let k' := (kernStep (.fork 101 0 childAns) k).2
    (k'.procs.get 101).children = [102] ∧ (k'.procs.get 102).pid = 3 ∧
      (doWaitLoop 101 7 0 [[], [], []] k').1 = none ∧
      (doWaitLoop 101 7 wNohang [] k').1 = some (0, none) := by
  exact exists_boot (by decide +kernel)

end Obelisk
