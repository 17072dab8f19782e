import Obelisk.Lib.Run
import Obelisk.Proc.Fork

/-!
# Who uses which address space

`mm->refcount` is raised by `copy_mm` and lowered by `process_destroy`; `do_execve` destroys the old
address space of its caller without looking at it.
-/

namespace Obelisk

open KLib Option Finmap Procs Spaces

variable {k : Kern} {P P' : Procs} {V : Spaces} {p flags : ℕ} {x y : Process} {b z : ℕ}
variable {c mm : ℕ} {k' : Kern} {a : ForkAns}

def usesMm (mm : ℕ) (x : Process) : ℕ := if x.mm = mm then 1 else 0

lemma usesMm_self (h : x.mm = mm) : usesMm mm x = 1 := if_pos h

lemma usesMm_ne (h : x.mm ≠ mm) : usesMm mm x = 0 := if_neg h

lemma Procs.Tree.users_eq_empty_iff (hT : P.Tree) (mm : ℕ) :
    P.users mm = ∅ ↔ total P.table (usesMm mm) = 0 := by
  rw [total_eq_zero_iff, Finset.eq_empty_iff_forall_notMem]
  constructor
  · intro h p x hp
    apply usesMm_ne
    exact fun hmm => h p (mem_users.mpr ⟨x, hp, hmm, (hT.node hp).state⟩)
  intro h p hmem
  obtain ⟨x, hp, hmm, _⟩ := mem_users.mp hmem
  have h0 := h p x hp
  rw [usesMm_self hmm] at h0
  cases h0

namespace Spaces

variable {mm : ℕ} {U : Finset ℕ} {c : ℤ}

@[simp] lemma mark_empty (s : Spaces) : s.mark ∅ = s := by
  rw [mark, Finset.union_empty]

lemma release_pos (h : V.refcount.lookup mm = some c) (hc : c ≠ 1) :
    V.release mm U = { V with refcount := modify mm (· - 1) V.refcount } := by
  have hne : ¬ (V.refcount.lookup mm).getD 0 - 1 = 0 := by
    rw [h, getD_some]
    omega
  rw [release]
  exact if_neg hne

lemma release_last (h : V.refcount.lookup mm = some 1) (h0 : mm ≠ 0) (hK : mm ≠ kernelAs) :
    V.release mm U = ⟨V.refcount.erase mm, V.victims ∪ U⟩ := by
  have hzero : (V.refcount.lookup mm).getD 0 - 1 = 0 := by
    rw [h, getD_some]
    rfl
  have hor : ¬ (mm = 0 ∨ mm = kernelAs) := by
    rintro (h | h)
    · exact h0 h
    · exact hK h
  rw [release, if_pos hzero, destroy, if_neg hor]
  congr 1
  apply ext_lookup
  intro b
  rw [lookup_erase_eq, lookup_erase_eq]
  split_ifs with hb
  · rfl
  · exact lookup_modify_ne hb

lemma release_share (h : V.refcount.lookup mm = some c) (hc : c ≠ 0) :
    (V.share mm).release mm U = V := by
  have h1 : (V.share mm).refcount.lookup mm = some (c + 1) := by
    rw [share, lookup_modify_self, h]
    rfl
  rw [release_pos h1 (by omega)]
  apply Spaces.ext
  · apply ext_lookup
    intro b
    rw [share, lookup_modify, lookup_modify_self, lookup_modify, h]
    split_ifs with hb
    · rw [hb, h]
      simp
    · rfl
  · rfl

lemma release_create (h : mm ∉ V.refcount) (h0 : mm ≠ 0) (hK : mm ≠ kernelAs) :
    release mm U { V with refcount := V.refcount.insert mm 1 } = V.mark U := by
  rw [release_last (lookup_insert _) h0 hK, erase_insert_new h]
  rfl

lemma share_lookup_ne (hb : b ≠ mm) : (V.share mm).refcount.lookup b = V.refcount.lookup b :=
  lookup_modify_ne hb

lemma release_lookup_ne (hb : b ≠ mm) :
    (V.release mm U).refcount.lookup b = V.refcount.lookup b := by
  rw [release]
  split_ifs
  · rw [destroy]
    dsimp only
    split_ifs
    · exact lookup_modify_ne hb
    rw [lookup_erase_ne hb]
    exact lookup_modify_ne hb
  · exact lookup_modify_ne hb

lemma copyMm_cases (mm flags a : ℕ) (s : Spaces) :
    s.copyMm mm flags a = (0, s) ∨ (mm ≠ 0 ∧ s.copyMm mm flags a = (mm, s.share mm)) ∨ (a ≠ 0 ∧ a ∉ s.refcount ∧
        s.copyMm mm flags a = (a, { s with refcount := s.refcount.insert a 1 })) := by
  rw [copyMm]
  split_ifs with h0 hflag
  · exact .inl rfl
  · exact .inr (.inl ⟨h0, rfl⟩)
  obtain h | h := s.create_cases a
  · exact .inl h
  · exact .inr (.inr h)

end Spaces

lemma doExecve_cases (hk : k.Base) (hp : k.procs.table.lookup p = some y) (a : ℕ) (ok : Bool) :
    ((a = 0 ∨ a ∈ k.vm.refcount) ∧ (doExecve p a ok k).2 = k) ∨
    (a ≠ 0 ∧ a ∉ k.vm.refcount ∧ ok = false ∧
      (doExecve p a ok k).2 = ⟨k.procs, k.vm.mark (k.procs.users a), k.io⟩) ∨
    (a ≠ 0 ∧ a ∉ k.vm.refcount ∧ ok = true ∧ let P := k.procs.upd p ({ · with mm := a })
      let vm : Spaces := { k.vm with refcount := k.vm.refcount.insert a 1 }
      (doExecve p a ok k).2 = ⟨P, if y.mm ≠ 0 ∧ y.mm ≠ kernelAs then vm.destroy y.mm (P.users y.mm) else vm,
        k.io.upd y.files FdTable.closeOnExec⟩) := by
  have hget := get_of_lookup hp
  by_cases hused : a = 0 ∨ a ∈ k.vm.refcount
  · left
    have hc : k.vm.create a = (0, k.vm) := if_pos hused
    rw [doExecve, hc]
    exact ⟨hused, rfl⟩
  right
  obtain ⟨ha0, ha⟩ := not_or.mp hused
  have hc : k.vm.create a = (a, { k.vm with refcount := k.vm.refcount.insert a 1 }) :=
    if_neg hused
  cases ok with
  | false =>
    left
    have hback : (k.procs.upd p ({ · with mm := a })).upd p ({ · with mm := y.mm }) = k.procs := by
      have h1 : (k.procs.upd p ({ · with mm := a })).table.lookup p = some { y with mm := a } := by
        rw [Procs.upd, lookup_modify_self, hp]
        rfl
      apply Procs.ext
      · rw [Procs.upd, modify_some h1, Procs.upd, modify_some hp, insert_insert, insert_self hp]
      · rfl
      · rfl
    refine ⟨ha0, ha, rfl, ?_⟩
    rw [doExecve, hc]
    split
    · next h => exact absurd (congrArg Prod.fst h) ha0
    · next m vm _ h =>
      cases h
      simp only [Bool.not_false, if_true, hget, hback]
      rw [destroy_new hk.mem_kernelAs ha0 ha]
  | true =>
    right
    refine ⟨ha0, ha, rfl, ?_⟩
    rw [doExecve, hc]
    split
    · next h => exact absurd (congrArg Prod.fst h) ha0
    · next m vm _ h =>
      cases h
      simp only [Bool.not_true, Bool.false_eq_true, if_false, hget]

lemma processDestroy_eq (hz : k.procs.table.lookup z = some x) (hker : x.kernel = false) :
    processDestroy z k = ⟨k.procs.unlink z,
      if x.mm ≠ 0 then k.vm.release x.mm ((k.procs.unlink z).users x.mm) else k.vm,
      k.io.fdTableFree x.files⟩ := by
  rw [processDestroy, get_of_lookup hz, hker]
  simp

lemma inKernelAs_children (x : Process) (l : List ℕ) :
    inKernelAs { x with children := l } = inKernelAs x := rfl

lemma usesMm_children (mm : ℕ) (x : Process) (l : List ℕ) :
    usesMm mm { x with children := l } = usesMm mm x := rfl

lemma Kern.Base.of_eq (hk : k.Base) (hT : k'.procs.Tree)
    (hle : total k'.procs.table inKernelAs ≤ total k.procs.table inKernelAs)
    (hK : k'.vm.refcount.lookup kernelAs = k.vm.refcount.lookup kernelAs)
    (h0 : k'.vm.refcount.lookup 0 = k.vm.refcount.lookup 0) : k'.Base := by
  obtain ⟨c, hc, hcount⟩ := hk.kernel
  refine ⟨hT, ?_, c, hK.trans hc, by omega⟩
  rw [← lookup_eq_none, h0]
  exact lookup_eq_none.mpr hk.noSpace

lemma Kern.Tried.refcount (h : k.Tried V) : V.refcount = k.vm.refcount := by
  obtain rfl | ⟨m, _, rfl⟩ := h <;> rfl

lemma ForkFails.base (hk : k.Base) (h : ForkFails y flags a k k') : k'.Base := by
  obtain ⟨n, hn, hprocs⟩ := h.procs
  obtain ⟨c, hc, hcount⟩ := hk.kernel
  have hT : k'.procs.Tree := hprocs ▸ hk.tree.withNext hn
  have htot : total k'.procs.table inKernelAs ≤ total k.procs.table inKernelAs := by
    rw [hprocs]
    exact le_refl _
  have hlook : ∀ b, b = kernelAs ∨ b = 0 → k'.vm.refcount.lookup b = k.vm.refcount.lookup b := by
    intro b hb
    obtain ⟨V, hV, hvm | ⟨m, hm, hm0, hvm⟩⟩ := h.vm
    · rw [hvm, hV.refcount]
    obtain hcp | ⟨_, hcp⟩ | ⟨ha0, ha, hcp⟩ := V.copyMm_cases y.mm flags a.mm
    · exact absurd (by rw [hm, hcp]) hm0
    · rw [hm, hcp] at hvm
      by_cases hbm : b = y.mm
      · have hbK : b = kernelAs := hb.resolve_right fun h0 => hm0 (by rw [hm, hcp, ← hbm, h0])
        have hlk : V.refcount.lookup y.mm = some c := by rw [hV.refcount, ← hbm, hbK, hc]
        rw [hvm, release_share hlk (by omega), hV.refcount]
      · rw [hvm, release_lookup_ne hbm, share_lookup_ne hbm, hV.refcount]
    rw [hm, hcp] at hvm
    have hba : b ≠ a.mm := by
      rintro rfl
      obtain h | h := hb
      · exact ha (by rw [h, hV.refcount]; exact hk.mem_kernelAs)
      · exact ha0 h
    rw [hvm, release_lookup_ne hba, lookup_insert_of_ne _ hba, hV.refcount]
  exact hk.of_eq hT htot (hlook _ (.inl rfl)) (hlook _ (.inr rfl))

lemma ForkAdds.base (hk : k.Base) (h : ForkAdds y flags a k k' c x) : k'.Base := by
  obtain ⟨n, hn, hcount⟩ := hk.kernel
  have hT := hk.tree.spawn h.spawn
  have htot : total k'.procs.table inKernelAs = total k.procs.table inKernelAs + inKernelAs x :=
    h.spawn.total inKernelAs_children
  obtain ⟨V, hV, hx0, hcp⟩ := h.vm
  obtain hcp' | ⟨hy0, hcp'⟩ | ⟨ha0, ha, hcp'⟩ := V.copyMm_cases y.mm flags a.mm
  · rw [hcp'] at hcp
    exact absurd (Prod.mk.inj hcp).1.symm hx0
  · rw [hcp'] at hcp
    obtain ⟨hxm, hvm⟩ := Prod.mk.inj hcp
    by_cases hyK : y.mm = kernelAs
    · have hin : inKernelAs x = 1 := if_pos ⟨hxm ▸ hyK, h.user⟩
      refine ⟨hT, ?_, n + 1, ?_, by omega⟩
      · rw [← lookup_eq_none, ← hvm, share_lookup_ne hy0.symm, hV.refcount]
        exact lookup_eq_none.mpr hk.noSpace
      rw [← hvm, share, hyK, lookup_modify_self, hV.refcount, hn]
      rfl
    have hin : inKernelAs x = 0 := if_neg fun hK => hyK (hxm.trans hK.1)
    apply hk.of_eq hT (by omega)
    · rw [← hvm, share_lookup_ne (Ne.symm hyK), hV.refcount]
    · rw [← hvm, share_lookup_ne hy0.symm, hV.refcount]
  rw [hcp'] at hcp
  obtain ⟨hxm, hvm⟩ := Prod.mk.inj hcp
  have haK : kernelAs ≠ a.mm := by
    rintro hK
    exact ha (by rw [← hK, hV.refcount]; exact hk.mem_kernelAs)
  have hin : inKernelAs x = 0 := if_neg fun hK => haK (hxm.trans hK.1).symm
  apply hk.of_eq hT (by omega)
  · rw [← hvm, lookup_insert_of_ne _ haK, hV.refcount]
  · rw [← hvm, lookup_insert_of_ne _ ha0.symm, hV.refcount]

lemma setMm_total_le {a : ℕ} (ha : a ≠ kernelAs) (hp : P.table.lookup p = some x) :
    total (P.upd p ({ · with mm := a })).table inKernelAs ≤ total P.table inKernelAs := by
  have h1 := upd_total (w := inKernelAs) (f := ({ · with mm := a })) hp
  have h2 : inKernelAs { x with mm := a } = 0 := if_neg fun h => ha h.1
  omega

lemma doExecve_base (hk : k.Base) (hp : k.procs.table.lookup p = some y) (a : ℕ) (ok : Bool) :
    (doExecve p a ok k).2.Base := by
  obtain ⟨_, h⟩ | ⟨_, _, _, h⟩ | ⟨ha0, ha, _, h⟩ := doExecve_cases hk hp a ok
  · rw [h]
    exact hk
  · rw [h]
    exact hk.of_eq hk.tree (le_refl _) rfl rfl
  have haK : a ≠ kernelAs := by
    rintro rfl
    exact ha hk.mem_kernelAs
  have hlook : ∀ b, b ≠ a → (b = kernelAs ∨ b = 0) → (if y.mm ≠ 0 ∧ y.mm ≠ kernelAs then
      destroy y.mm ((k.procs.upd p ({ · with mm := a })).users y.mm)
        { k.vm with refcount := k.vm.refcount.insert a 1 }
      else { k.vm with refcount := k.vm.refcount.insert a 1 }).refcount.lookup b =
        k.vm.refcount.lookup b := by
    intro b hba hb
    split_ifs with hy
    · rw [destroy, if_neg (by tauto)]
      dsimp only
      rw [lookup_erase_ne, lookup_insert_of_ne _ hba]
      rintro rfl
      obtain hb | hb := hb
      · exact hy.2 hb
      · exact hy.1 hb
    · exact lookup_insert_of_ne _ hba
  rw [h]
  exact hk.of_eq (hk.tree.upd (fun _ => rfl) (fun _ => rfl) (fun _ => rfl) (fun _ => rfl)
    fun _ h => h) (setMm_total_le haK hp) (hlook _ haK.symm (.inl rfl)) (hlook _ ha0.symm (.inr rfl))

lemma processDestroy_base (hk : k.Base) (hz : k.procs.table.lookup z = some x)
    (hker : x.kernel = false) : (processDestroy z k).Base := by
  have hT := hk.tree.unlink hz
  have htot := unlink_total inKernelAs_children hz
  obtain ⟨c, hc, hcount⟩ := hk.kernel
  rw [processDestroy_eq hz hker]
  split_ifs with h0
  · by_cases hK : x.mm = kernelAs
    · have hin : inKernelAs x = 1 := if_pos ⟨hK, hker⟩
      have hc1 : c ≠ 1 := by omega
      rw [hK, release_pos hc hc1]
      refine ⟨hT, ?_, c - 1, ?_, ?_⟩
      · rw [← lookup_eq_none]
        dsimp only
        rw [lookup_modify_ne (by decide)]
        exact lookup_eq_none.mpr hk.noSpace
      · dsimp only
        rw [lookup_modify_self, hc]
        rfl
      dsimp only
      omega
    · exact hk.of_eq hT (by dsimp only; omega) (release_lookup_ne (Ne.symm hK)) (release_lookup_ne (Ne.symm h0))
  · exact hk.of_eq hT (by dsimp only; omega) rfl rfl

lemma Kern.Base.step (hk : k.Base) (op : KernOp) : (kernStep op k).2.Base := by
  rw [kernStep]
  split_ifs with hrun
  · obtain ⟨y, hp, _⟩ := runnable_iff.mp hrun
    cases op with
    | fork p flags a =>
      obtain h | ⟨c, x, h, -⟩ := doFork_cases hk hp flags a <;> exact h.base hk
    | execve p a ok => exact doExecve_base hk hp a ok
    | exit p code =>
      refine hk.of_eq (hk.tree.upd (fun _ => rfl) (fun _ => rfl) (fun _ => rfl) (fun _ => rfl) ?_)
        (le_of_eq (upd_total_eq fun _ => rfl)) rfl rfl
      intro x _
      exact nofun
    | wait p pid =>
      cases hz : k.procs.zombieChild p pid with
      | none =>
        simp only [KernOp.perform, doWait, hz]
        exact hk
      | some z =>
        obtain ⟨x, hx, hker, _⟩ := zombieChild_spec hk.tree hz
        simp only [KernOp.perform, doWait, hz]
        exact processDestroy_base hk hx hker
    | openFile | closeFile | dup | dup2 => exact ⟨hk.tree, hk.noSpace, hk.kernel⟩
  · exact hk

/-! ## Address spaces and their users -/

/-- No process has lost its address space, every process has one that exists, and every count is the
number of processes that use it. The kernel's own address space is used without being counted. -/
structure MmOk (k : Kern) : Prop where
  victims : k.vm.victims = ∅
  live : ∀ p x, k.procs.table.lookup p = some x → x.mm ∈ k.vm.refcount
  count : ∀ m c, m ≠ kernelAs → k.vm.refcount.lookup m = some c → c = total k.procs.table (usesMm m)

/-- A call to `do_execve` that succeeds is made by a process in the kernel's address space, or in one
with a count of `1`. -/
def ExecAlone : KernOp → Kern → Prop
  | .execve p a ok, k =>
    k.procs.runnable p = true → ok = true → a ≠ 0 → a ∉ k.vm.refcount →
      (k.procs.get p).mm = kernelAs ∨ k.vm.refcount.lookup (k.procs.get p).mm = some 1
  | _, _ => True

namespace MmOk

variable {m : ℕ} {k' : Kern}

section

variable (h : MmOk k)
include h

lemma total_eq_zero (hm : m ∉ k.vm.refcount) : total k.procs.table (usesMm m) = 0 := by
  rw [total_eq_zero_iff]
  intro p x hp
  apply usesMm_ne
  rintro rfl
  exact hm (h.live p x hp)

lemma users_eq_empty (hk : k.Base) (hm : m ∉ k.vm.refcount) : k.procs.users m = ∅ :=
  (hk.tree.users_eq_empty_iff m).mpr (h.total_eq_zero hm)

lemma tried (hk : k.Base) (hV : k.Tried V) : V = k.vm := by
  obtain rfl | ⟨m, hm, rfl⟩ := hV
  · rfl
  · rw [h.users_eq_empty hk hm, mark_empty]

lemma exists_count (hk : k.Base) (hp : k.procs.table.lookup p = some x) :
    ∃ c, k.vm.refcount.lookup x.mm = some c ∧ 1 ≤ c := by
  by_cases hK : x.mm = kernelAs
  · obtain ⟨c, hc, hcount⟩ := hk.kernel
    exact ⟨c, hK ▸ hc, by omega⟩
  obtain ⟨c, hc⟩ := mem_iff.mp (h.live p x hp)
  have h1 := h.count _ c hK hc
  have h2 : usesMm x.mm x ≤ total k.procs.table (usesMm x.mm) := le_total hp
  rw [usesMm_self rfl] at h2
  exact ⟨c, hc, by omega⟩

lemma of_eq (hvm : k'.vm = k.vm) (hmm : ∀ p x', k'.procs.table.lookup p = some x' →
      ∃ x, k.procs.table.lookup p = some x ∧ x'.mm = x.mm)
    (htot : ∀ m, total k'.procs.table (usesMm m) = total k.procs.table (usesMm m)) : MmOk k' := by
  refine ⟨hvm ▸ h.victims, ?_, ?_⟩
  · intro p x' hp
    obtain ⟨x, hx, hxm⟩ := hmm p x' hp
    rw [hvm, hxm]
    exact h.live p x hx
  intro m c hm hc
  rw [htot]
  exact h.count m c hm (hvm ▸ hc)

lemma forkFails (hk : k.Base)
    (hp : k.procs.table.lookup p = some y) (hf : ForkFails y flags a k k') : MmOk k' := by
  obtain ⟨n, _, hprocs⟩ := hf.procs
  have hvm : k'.vm = k.vm := by
    obtain ⟨V, hV, hvm | ⟨m, hm, hm0, hvm⟩⟩ := hf.vm
    · rw [hvm, h.tried hk hV]
    rw [h.tried hk hV] at hm
    obtain hcp | ⟨_, hcp⟩ | ⟨ha0, ha, hcp⟩ := k.vm.copyMm_cases y.mm flags a.mm
    · exact absurd (by rw [hm, hcp]) hm0
    · obtain ⟨c, hc, hc1⟩ := h.exists_count hk hp
      rw [hvm, hm, hcp, release_share hc (by omega)]
    have haK : a.mm ≠ kernelAs := by
      intro hK
      exact ha (hK ▸ hk.mem_kernelAs)
    rw [hvm, hm, hcp, release_create ha ha0 haK, h.users_eq_empty hk ha, mark_empty]
  apply h.of_eq hvm
  · intro q x hq
    rw [hprocs] at hq
    exact ⟨x, hq, rfl⟩
  intro m
  rw [hprocs]
  rfl

lemma forkAdds (hk : k.Base)
    (hp : k.procs.table.lookup p = some y) (hf : ForkAdds y flags a k k' c x) : MmOk k' := by
  have htot : ∀ m, total k'.procs.table (usesMm m) = total k.procs.table (usesMm m) + usesMm m x :=
    fun m => hf.spawn.total (usesMm_children m)
  obtain ⟨V, hV, hx0, hcp⟩ := hf.vm
  rw [h.tried hk hV] at hcp
  have hold : ∀ q z, k'.procs.table.lookup q = some z → z.mm = x.mm ∨ z.mm ∈ k.vm.refcount := by
    intro q z hq
    obtain ⟨_, rfl⟩ | ⟨_, y', hy', rfl⟩ := hf.spawn.cases hq
    · exact .inl rfl
    right
    have := h.live q y' hy'
    split_ifs <;> exact this
  obtain hcp' | ⟨hy0, hcp'⟩ | ⟨ha0, ha, hcp'⟩ := k.vm.copyMm_cases y.mm flags a.mm
  · rw [hcp'] at hcp
    exact absurd (Prod.mk.inj hcp).1.symm hx0
  · rw [hcp'] at hcp
    obtain ⟨hxm, hvm⟩ := Prod.mk.inj hcp
    have hmem : ∀ m, m ∈ k.vm.refcount → m ∈ k'.vm.refcount := by
      intro m hm
      rw [← lookup_isSome] at hm ⊢
      rw [← hvm, share, lookup_modify]
      split_ifs with heq
      · rw [isSome_map, ← heq]
        exact hm
      · exact hm
    refine ⟨hvm ▸ h.victims, ?_, ?_⟩
    · intro q z hq
      obtain hz | hz := hold q z hq
      · rw [hz, ← hxm]
        exact hmem _ (h.live p y hp)
      · exact hmem _ hz
    intro m n hmK hn
    rw [htot m]
    rw [← hvm, share, lookup_modify] at hn
    split_ifs at hn with heq
    · obtain ⟨n', hn', rfl⟩ := map_eq_some_iff.mp hn
      have h1 := h.count m n' hmK (heq ▸ hn')
      rw [usesMm_self (hxm.symm.trans heq.symm)]
      push_cast
      omega
    have h1 := h.count m n hmK hn
    rw [usesMm_ne fun hm => heq (hm.symm.trans hxm.symm)]
    exact h1
  rw [hcp'] at hcp
  obtain ⟨hxm, hvm⟩ := Prod.mk.inj hcp
  refine ⟨hvm ▸ h.victims, ?_, ?_⟩
  · intro q z hq
    rw [← hvm, mem_insert]
    obtain hz | hz := hold q z hq
    · exact .inl (hz.trans hxm.symm)
    · exact .inr hz
  intro m n hmK hn
  rw [htot m]
  rw [← hvm, lookup_insert_eq] at hn
  split_ifs at hn with heq
  · rw [heq, h.total_eq_zero ha, usesMm_self hxm.symm, ← some.inj hn]
    rfl
  have h1 := h.count m n hmK hn
  rw [usesMm_ne fun hm => heq (hm.symm.trans hxm.symm)]
  exact h1

end

section Execve

variable {a : ℕ} (h : MmOk k) (hp : k.procs.table.lookup p = some y) (ha : a ∉ k.vm.refcount)

include hp

lemma execve_cases {q : ℕ} {z : Process}
    (hq : (k.procs.upd p ({ · with mm := a })).table.lookup q = some z) :
    z.mm = a ∨ k.procs.table.lookup q = some z := by
  rw [Procs.upd, lookup_modify] at hq
  split_ifs at hq with hqp
  · rw [hp] at hq
    left
    rw [← some.inj hq]
  · exact .inr hq

include h ha

lemma execve_count {m : ℕ} {n : ℤ} (hmK : m ≠ kernelAs) (hmy : m ≠ y.mm)
    (hn : (k.vm.refcount.insert a 1).lookup m = some n) :
    n = total (k.procs.upd p ({ · with mm := a })).table (usesMm m) := by
  have htot := upd_total (w := usesMm m) (f := ({ · with mm := a })) hp
  have hy : usesMm m y = 0 := usesMm_ne (Ne.symm hmy)
  rw [lookup_insert_eq] at hn
  split_ifs at hn with hma
  · have h0 := h.total_eq_zero ha
    rw [← hma] at h0
    have h1 : usesMm m { y with mm := a } = 1 := usesMm_self hma.symm
    rw [← some.inj hn]
    omega
  have h0 := h.count m n hmK hn
  have h1 : usesMm m { y with mm := a } = 0 := usesMm_ne (Ne.symm hma)
  omega

lemma execve_old (hyK : y.mm ≠ kernelAs) : k.vm.refcount.lookup y.mm =
    some ((total (k.procs.upd p ({ · with mm := a })).table (usesMm y.mm) : ℤ) + 1) := by
  have htot := upd_total (w := usesMm y.mm) (f := ({ · with mm := a })) hp
  obtain ⟨c, hc⟩ := mem_iff.mp (h.live p y hp)
  have h0 := h.count _ c hyK hc
  have h1 : usesMm y.mm y = 1 := usesMm_self rfl
  have h2 : usesMm y.mm { y with mm := a } = 0 := by
    apply usesMm_ne
    intro hay
    exact ha ((show a = y.mm from hay) ▸ h.live p y hp)
  rw [hc]
  congr 1
  omega

end Execve

/-- `do_execve` keeps the counts right exactly if its caller is alone. -/
theorem execve_iff (h : MmOk k) (hk : k.Base) (hrun : k.procs.runnable p = true) (a : ℕ)
    (ok : Bool) : MmOk (doExecve p a ok k).2 ↔ ExecAlone (.execve p a ok) k := by
  obtain ⟨y, hp, _⟩ := runnable_iff.mp hrun
  have hget := get_of_lookup hp
  obtain ⟨hused, he⟩ | ⟨_, ha, hok, he⟩ | ⟨ha0, ha, hok, he⟩ := doExecve_cases hk hp a ok
  · rw [he]
    refine ⟨fun _ _ _ ha0 ha => ?_, fun _ => h⟩
    obtain h0 | h1 := hused
    · exact absurd h0 ha0
    · exact absurd h1 ha
  · rw [he, h.users_eq_empty hk ha, mark_empty]
    refine ⟨fun _ _ hok' => ?_, fun _ => h⟩
    rw [hok] at hok'
    cases hok'
  have hT : (k.procs.upd p ({ · with mm := a })).Tree :=
    hk.tree.upd (fun _ => rfl) (fun _ => rfl) (fun _ => rfl) (fun _ => rfl) fun _ h => h
  have hy0 : y.mm ≠ 0 := by
    intro hy0
    exact hk.noSpace (hy0 ▸ h.live p y hp)
  dsimp only at he
  rw [he]
  by_cases hyK : y.mm = kernelAs
  · rw [if_neg fun hc => hc.2 hyK]
    refine ⟨fun _ _ _ _ _ => .inl (hget ▸ hyK), fun _ => ⟨h.victims, ?_, ?_⟩⟩
    · intro q z hq
      rw [mem_insert]
      obtain hz | hz := execve_cases hp hq
      · exact .inl hz
      · exact .inr (h.live q z hz)
    intro m n hmK hn
    exact h.execve_count hp ha hmK (hyK ▸ hmK) hn
  have hold := h.execve_old hp ha hyK
  rw [if_pos ⟨hy0, hyK⟩, destroy, if_neg (not_or.mpr ⟨hy0, hyK⟩), h.victims, Finset.empty_union]
  constructor
  · intro h' _ _ _ _
    right
    have hnone := (hT.users_eq_empty_iff y.mm).mp h'.victims
    rw [hget, hold, hnone]
    rfl
  intro halone
  have h1 : k.vm.refcount.lookup y.mm = some 1 := by
    have := halone hrun hok ha0 ha
    rw [hget] at this
    exact this.resolve_left hyK
  have hzero : total (k.procs.upd p ({ · with mm := a })).table (usesMm y.mm) = 0 := by
    have := some.inj (hold.symm.trans h1)
    omega
  refine ⟨(hT.users_eq_empty_iff y.mm).mpr hzero, ?_, ?_⟩
  · intro q z hq
    have hzy : z.mm ≠ y.mm := by
      intro hzy
      have := total_eq_zero_iff.mp hzero q z hq
      rw [usesMm_self hzy] at this
      cases this
    rw [mem_erase, mem_insert]
    obtain hz | hz := execve_cases hp hq
    · exact ⟨hzy, .inl hz⟩
    · exact ⟨hzy, .inr (h.live q z hz)⟩
  intro m n hmK hn
  rw [lookup_erase_eq] at hn
  split_ifs at hn with hmy
  exact h.execve_count hp ha hmK hmy hn

lemma processDestroy (h : MmOk k) (hk : k.Base) (hz : k.procs.table.lookup z = some x)
    (hker : x.kernel = false) : MmOk (processDestroy z k) := by
  have hT := hk.tree.unlink hz
  have htot : ∀ m, total (k.procs.unlink z).table (usesMm m) + usesMm m x =
      total k.procs.table (usesMm m) := fun m => unlink_total (usesMm_children m) hz
  have hx0 : x.mm ≠ 0 := by
    intro hx0
    exact hk.noSpace (hx0 ▸ h.live z x hz)
  have hlive : ∀ q y, (k.procs.unlink z).table.lookup q = some y → y.mm ∈ k.vm.refcount := by
    intro q y hq
    obtain ⟨_, y', hy', rfl⟩ := unlink_cases hz hq
    have := h.live q y' hy'
    split_ifs <;> exact this
  obtain ⟨c, hc, hc1⟩ := h.exists_count hk hz
  rw [processDestroy_eq hz hker, if_pos hx0]
  by_cases hlast : c = 1 ∧ x.mm ≠ kernelAs
  · obtain ⟨rfl, hxK⟩ := hlast
    have hcount := h.count _ _ hxK hc
    have hx1 : usesMm x.mm x = 1 := usesMm_self rfl
    have hzero : total (k.procs.unlink z).table (usesMm x.mm) = 0 := by
      have := htot x.mm
      omega
    rw [release_last hc hx0 hxK, (hT.users_eq_empty_iff _).mpr hzero, Finset.union_empty]
    refine ⟨h.victims, ?_, ?_⟩
    · intro q y hq
      rw [mem_erase]
      refine ⟨?_, hlive q y hq⟩
      intro hyx
      have := total_eq_zero_iff.mp hzero q y hq
      rw [usesMm_self hyx] at this
      cases this
    intro m n hmK hn
    rw [lookup_erase_eq] at hn
    split_ifs at hn with hmx
    have h0 := h.count m n hmK hn
    have h1 := htot m
    rw [usesMm_ne (Ne.symm hmx)] at h1
    dsimp only
    omega
  have hne : c ≠ 1 := by
    intro hc1'
    have hxK : x.mm = kernelAs := not_not.mp fun hxK => hlast ⟨hc1', hxK⟩
    obtain ⟨c', hc', hcount⟩ := hk.kernel
    have hin : inKernelAs x = 1 := if_pos ⟨hxK, hker⟩
    have hle : inKernelAs x ≤ total k.procs.table inKernelAs := le_total hz
    rw [hxK, hc'] at hc
    have := some.inj hc
    omega
  rw [release_pos hc hne]
  refine ⟨h.victims, ?_, ?_⟩
  · intro q y hq
    have hmem := hlive q y hq
    rw [← lookup_isSome] at hmem ⊢
    dsimp only
    rw [lookup_modify]
    split_ifs with heq
    · rw [isSome_map, ← heq]
      exact hmem
    · exact hmem
  intro m n hmK hn
  have h1 := htot m
  dsimp only at hn ⊢
  rw [lookup_modify] at hn
  split_ifs at hn with hmx
  · rw [hc] at hn
    have h0 := h.count m c hmK (hmx ▸ hc)
    have hn' : n = c - 1 := (some.inj hn).symm
    rw [usesMm_self hmx.symm] at h1
    omega
  have h0 := h.count m n hmK hn
  rw [usesMm_ne (Ne.symm hmx)] at h1
  omega

lemma step_iff (h : MmOk k) (hk : k.Base) (op : KernOp) :
    MmOk (kernStep op k).2 ↔ ExecAlone op k := by
  rw [kernStep]
  split_ifs with hrun
  · obtain ⟨y, hp, _⟩ := runnable_iff.mp hrun
    cases op with
    | execve p a ok => exact h.execve_iff hk hrun a ok
    | fork p flags a =>
      refine iff_of_true ?_ trivial
      obtain hf | ⟨c, x, hf, -⟩ := doFork_cases hk hp flags a
      · exact h.forkFails hk hp hf
      · exact h.forkAdds hk hp hf
    | exit p code =>
      refine iff_of_true (h.of_eq rfl ?_ fun m => upd_total_eq fun _ => rfl) trivial
      intro q x hq
      simp only [KernOp.perform, doExit, Procs.upd, lookup_modify] at hq
      split_ifs at hq with hqp
      · obtain ⟨x', hx', rfl⟩ := map_eq_some_iff.mp hq
        exact ⟨x', hqp ▸ hx', rfl⟩
      · exact ⟨x, hq, rfl⟩
    | wait p pid =>
      refine iff_of_true ?_ trivial
      cases hz : k.procs.zombieChild p pid with
      | none =>
        simp only [KernOp.perform, doWait, hz]
        exact h
      | some z =>
        obtain ⟨x, hx, hker, _⟩ := zombieChild_spec hk.tree hz
        simp only [KernOp.perform, doWait, hz]
        exact h.processDestroy hk hx hker
    | openFile | closeFile | dup | dup2 => exact iff_of_true ⟨h.victims, h.live, h.count⟩ trivial
  refine iff_of_true h ?_
  cases op with
  | execve p a ok => exact fun hrun' => absurd hrun' hrun
  | _ => trivial

end MmOk

lemma processInit_mm {a b : CreateAns} (h : processInit a b = some k) : k.Base ∧ MmOk k := by
  obtain ⟨i, x, k1, j, y, hx, hT, hy⟩ := processInit_spec h
  have hvm : k.vm = ⟨singleton kernelAs 1, ∅⟩ := hy.vm.trans hx.vm
  have hK : k.vm.refcount.lookup kernelAs = some 1 := by
    rw [hvm]
    exact lookup_singleton_eq
  have hother : ∀ m, m ≠ kernelAs → m ∉ k.vm.refcount := by
    intro m hm
    rw [hvm, mem_singleton]
    exact hm
  have htot : total k.procs.table inKernelAs = 0 := by
    have hin : ∀ z : Process, z.kernel = true → inKernelAs z = 0 := by
      intro z hz
      exact if_neg fun h => by rw [hz] at h; cases h.2
    rw [hy.spawn.total inKernelAs_children, hx.spawn.total inKernelAs_children, hin x hx.kernel, hin y hy.kernel]
    exact total_empty inKernelAs
  refine ⟨⟨hT.spawn hy.spawn, hother 0 (by decide), 1, hK, by omega⟩, ⟨by rw [hvm], ?_, ?_⟩⟩
  · have hmm : ∀ p z, k.procs.table.lookup p = some z → z.mm = kernelAs := by
      intro p z hp
      obtain ⟨_, rfl⟩ | ⟨_, z', hz', rfl⟩ := hy.spawn.cases hp
      · exact hy.mm
      have hz : z'.mm = kernelAs := by
        obtain ⟨_, rfl⟩ | ⟨_, w, hw, _⟩ := hx.spawn.cases hz'
        · exact hx.mm
        · cases hw
      split_ifs <;> exact hz
    intro p z hp
    rw [hmm p z hp]
    exact mem_of_lookup_eq_some hK
  intro m c hm hc
  exact absurd (mem_of_lookup_eq_some hc) (hother m hm)

/-- **Processes keep their address spaces**, and the counts are right, after every call of a run
exactly if each `do_execve` that succeeds is called by a process that is alone in its address
space. -/
theorem mm_run_refcount {a b : CreateAns} (hk : processInit a b = some k) (ops : List KernOp) :
    (∀ pre, pre <+: ops → MmOk (runOps kernStep pre k).2) ↔ Along kernStep ExecAlone ops k := by
  obtain ⟨hbase, hok⟩ := processInit_mm hk
  have hall : ∀ pre, (runOps kernStep pre k).2.Base := fun pre =>
    runOps_inv Kern.Base (fun op _ h => h.step op) pre hbase
  have hiff := forall_prefix_iff_along (fun k => k.Base ∧ MmOk k)
    (fun op k h => (and_iff_right (h.1.step op)).trans (h.2.step_iff h.1 op)) ops ⟨hbase, hok⟩
  rw [← hiff]
  exact forall₂_congr fun pre _ => (and_iff_right (hall pre)).symm

theorem mm_run_refcount_small : ∃ k, processInit idleAns initAns = some k ∧
    MmOk (runOps kernStep [.execve 101 10 true,
      .fork 101 0 childAns, .execve 102 12 true] k).2 := by
  obtain ⟨k, hk, hmm, hone⟩ := exists_boot (P := fun k =>
    let k' := (runOps kernStep [.execve 101 10 true,
      .fork 101 0 childAns] k).2
    (k.procs.get 101).mm = kernelAs ∧ k'.vm.refcount.lookup (k'.procs.get 102).mm = some 1)
    (by decide +kernel)
  have halong : Along kernStep ExecAlone [.execve 101 10 true,
      .fork 101 0 childAns, .execve 102 12 true] k :=
    ⟨fun _ _ _ _ => .inl hmm, trivial, fun _ _ _ _ => .inr hone, trivial⟩
  exact ⟨k, hk, (mm_run_refcount hk _).mpr halong _ List.prefix_rfl⟩

theorem exec_destroys_shared : ∃ k, processInit idleAns initAns = some k ∧
    let k' := (runOps kernStep [.execve 101 10 true,
      .fork 101 (cloneVfork ||| cloneVm) ⟨⟨102, true, 11, 202, true⟩, 0, 202, true⟩,
      .execve 102 12 true] k).2
    k'.vm.victims = {101} ∧ (k'.procs.get 101).mm = 10 ∧ 10 ∉ k'.vm.refcount := by
  exact exists_boot (by decide +kernel)

end Obelisk
