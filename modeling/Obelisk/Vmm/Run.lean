import Obelisk.Paging.Refine
import Obelisk.Vmm.Lifecycle
import Obelisk.Vmm.Mmap

/-!
# The areas of an address space over whole runs

- `vmm_run_areas`: the areas stay sorted, disjoint and aligned.
-/

namespace Obelisk

open KLib

variable {P : Type} [FramePool P] {s : Space P} {l : List (ℕ × Area)}

def VmOp.LengthOk : VmOp → Prop
  | mmap _ length _ _ _ _ => length ≤ 2 ^ 64 - pageSize
  | _ => True

instance (op : VmOp) : Decidable op.LengthOk := by
  cases op <;> unfold VmOp.LengthOk <;> infer_instance

lemma Returns.exec {ρ : Type} {A : ℕ → Prop} {G : Prop}
    {r : Option (ρ × Space P)} (h : Returns A s l G r) : ∃ t l', r.map Prod.snd = some t ∧
      Listed t l' ∧ SpaceStep A s t ∧ (NonEmpty l → G → NonEmpty l') := by
  obtain ⟨x, t, l', rfl, hl, hstep, hne⟩ := h
  exact ⟨t, l', rfl, hl, hstep, hne⟩

lemma exec_listed (h : Listed s l) (op : VmOp) :
    ∃ t l', op.exec s = some t ∧ Listed t l' ∧ (NonEmpty l → op.LengthOk → NonEmpty l') := by
  cases op with
  | mmap addr length prot flags file offset =>
    obtain ⟨t, l', ht, hl, -, hne⟩ := (vmmMmap_returns h addr length prot flags file offset).exec
    exact ⟨t, l', ht, hl, hne⟩
  | munmap addr length =>
    obtain ⟨t, l', ht, hl, -, hne⟩ := (vmmMunmap_returns h addr length True).exec
    exact ⟨t, l', ht, hl, hne⟩
  | brk addr => exact ⟨_, l, rfl, vmmBrk_listed h addr, fun hl _ => hl⟩
  | fault addr errorCode =>
    obtain ⟨t, l', ht, hl, -, hne⟩ := (vmmHandlePageFault_returns h addr errorCode True).exec
    exact ⟨t, l', ht, hl, hne⟩

lemma vmRun_listed (h : Listed s l) (ops : List VmOp) : ∃ t l', vmRun ops s = some t ∧ Listed t l' ∧
      (NonEmpty l → (∀ op ∈ ops, op.LengthOk) → NonEmpty l') := by
  induction ops generalizing s l with
  | nil => exact ⟨s, l, rfl, h, fun hl _ => hl⟩
  | cons op ops ih =>
    obtain ⟨t, l', ht, hl, hne⟩ := exec_listed h op
    obtain ⟨u, l'', hu, hl', hne'⟩ := ih hl
    refine ⟨u, l'', ?_, hl', fun hn hops => ?_⟩
    · rw [vmRun, ht, Option.bind_some, hu]
    · exact hne' (hne hn (hops op List.mem_cons_self)) fun o ho => hops o (List.mem_cons_of_mem _ ho)

lemma vmmCreateAddressSpace_listed {kernelPml4 : ℕ} {mm : Mm P} {as : AddressSpace}
    (h : (vmmCreateAddressSpace kernelPml4 mm).1 = some as) :
    Listed (⟨as, (vmmCreateAddressSpace kernelPml4 mm).2⟩ : Space P) [] := by
  have has : as = freshAddressSpace as.pt := by
    unfold vmmCreateAddressSpace at h
    dsimp only at h
    split_ifs at h
    cases h
    rfl
  rw [has]
  exact ⟨⟨0, rfl, rfl⟩, List.nodup_nil, by simp, rfl, by simp, List.Pairwise.nil⟩

/-- **The areas of an address space.** From a fresh address space, after any sequence of
operations, whatever the answers of the allocators: the areas form a consistent doubly linked list,
`vma_count` is its length, they are non-empty, page aligned, inside user space, strictly sorted and
disjoint, and `vmm_find_vma` returns the only area that contains an address, or `NULL`. -/
theorem vmm_run_areas (kernelPml4 : ℕ) (mm : Mm P) (as : AddressSpace)
    (hnew : (vmmCreateAddressSpace kernelPml4 mm).1 = some as) (ops : List VmOp)
    (hops : ∀ op ∈ ops, op.LengthOk) :
    ∃ s, vmRun ops ⟨as, (vmmCreateAddressSpace kernelPml4 mm).2⟩ = some s ∧
      ∃ l : List (ℕ × Area), (∃ last, Seg s.mm.vmas 0 s.as.vmaList l last 0) ∧
        (l.map Prod.fst).Nodup ∧ s.as.vmaCount = l.length ∧
        (∀ x ∈ l, x.2.start < x.2.stop ∧ x.2.start % pageSize = 0 ∧ x.2.stop % pageSize = 0 ∧
          x.2.stop ≤ userSpaceEnd) ∧
        l.Pairwise (fun x y => x.2.start < y.2.start) ∧
        l.Pairwise (fun x y => x.2.stop ≤ y.2.start) ∧
        ∀ addr, (∃ x ∈ l, x.2.Has addr ∧ vmmFindVma addr s = some x.1 ∧ ∀ y ∈ l, y.2.Has addr → y = x) ∨
          ((∀ y ∈ l, ¬ y.2.Has addr) ∧ vmmFindVma addr s = some 0) := by
  obtain ⟨s, l, hs, hl, hne⟩ := vmRun_listed (vmmCreateAddressSpace_listed hnew) ops
  have hne := hne (fun y hy => by cases hy) hops
  refine ⟨s, hs, l, hl.seg, hl.nodup, hl.count, fun x hx => ?_, ?_, hl.ordered, fun addr => ?_⟩
  · have hok := hl.ok x hx
    exact ⟨hne x hx, hok.start_aligned, hok.stop_aligned, hok.stop_le⟩
  · refine hl.ordered.imp_of_mem fun {x y} hx _ hxy => (hne x hx).trans_le hxy
  obtain ⟨r, hr, ⟨a, ha, hin⟩ | ⟨rfl, hnone⟩⟩ := vmmFindVma_spec hl addr
  · exact .inl ⟨(r, a), ha, hin, hr, fun y hy hya => hl.ordered.unique hy ha hya hin⟩
  · exact .inr ⟨hnone, hr⟩

def smallMm : Mm PmmPool := ⟨smallMachine, fun _ => none, [64, 128, 192, 256, 320], []⟩

theorem vmm_run_areas_small :
    let ops := [VmOp.mmap 0 0x3000 protWrite mapAnonymous 0 0, .fault 0x10001000 2,
      .munmap 0x10001000 0x1000]
    ∃ s, vmRun ops ⟨freshAddressSpace 2, (vmmCreateAddressSpace 1 smallMm).2⟩ = some s ∧
      ∃ l : List (ℕ × Area), (∃ last, Seg s.mm.vmas 0 s.as.vmaList l last 0) ∧
        s.as.vmaCount = l.length := by
  intro ops
  obtain ⟨s, hs, l, hseg, -, hcount, -⟩ := vmm_run_areas 1 smallMm (freshAddressSpace 2)
    (by decide +kernel) ops (by decide)
  exact ⟨s, hs, l, hseg, hcount⟩

end Obelisk
