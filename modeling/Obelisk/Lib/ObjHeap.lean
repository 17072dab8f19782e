import Mathlib.Algebra.Order.BigOperators.Group.Finset
import Mathlib.Data.Finmap

/-!
# Heaps of counted objects

A heap is a finite map from addresses to the objects allocated there.
-/

namespace KLib

open Finmap

variable {α : Type*}

abbrev ObjHeap (α : Type*) := Finmap fun _ : ℕ => α

def total (h : ObjHeap α) (w : α → ℕ) : ℕ := ∑ a ∈ h.keys, ((h.lookup a).map w).getD 0

def modify (a : ℕ) (f : α → α) (h : ObjHeap α) : ObjHeap α :=
  match h.lookup a with
  | some v => h.insert a (f v)
  | none => h

section

variable {h : ObjHeap α} {w : α → ℕ} {a b : ℕ} {v x : α} {f g : α → α}

lemma modify_some (ha : h.lookup a = some v) : modify a f h = h.insert a (f v) := by
  simp [modify, ha]

lemma modify_none (ha : h.lookup a = none) : modify a f h = h := by
  simp [modify, ha]

lemma lookup_modify_self : (modify a f h).lookup a = (h.lookup a).map f := by
  cases ha : h.lookup a with
  | none => rw [modify_none ha, ha, Option.map_none]
  | some v => rw [modify_some ha, lookup_insert, Option.map_some]

lemma lookup_modify_ne (hb : b ≠ a) : (modify a f h).lookup b = h.lookup b := by
  cases ha : h.lookup a with
  | none => rw [modify_none ha]
  | some v => rw [modify_some ha, lookup_insert_of_ne _ hb]

lemma lookup_modify :
    (modify a f h).lookup b = if b = a then (h.lookup a).map f else h.lookup b := by
  split_ifs with hb
  · rw [hb, lookup_modify_self]
  · exact lookup_modify_ne hb

lemma lookup_insert_eq : (h.insert a v).lookup b = if b = a then some v else h.lookup b := by
  split_ifs with hb
  · rw [hb, lookup_insert]
  · exact lookup_insert_of_ne _ hb

lemma lookup_insert_cases (hb : (h.insert a v).lookup b = some x) :
    b = a ∧ x = v ∨ b ≠ a ∧ h.lookup b = some x := by
  rw [lookup_insert_eq] at hb
  split_ifs at hb with hba
  · exact .inl ⟨hba, (Option.some.inj hb).symm⟩
  · exact .inr ⟨hba, hb⟩

lemma lookup_erase_eq : (h.erase a).lookup b = if b = a then none else h.lookup b := by
  split_ifs with hb
  · rw [hb, lookup_erase]
  · exact lookup_erase_ne hb

lemma modify_insert_ne (hab : a ≠ b) : modify a f (h.insert b v) = (modify a f h).insert b v := by
  apply ext_lookup
  intro c
  rw [lookup_modify, lookup_insert_of_ne _ hab, lookup_insert_eq, lookup_insert_eq, lookup_modify]
  split_ifs with hca hcb
  · exact absurd (hca.symm.trans hcb) hab
  · rfl
  · rfl
  · rfl

lemma insert_self (ha : h.lookup a = some v) : h.insert a v = h := by
  apply ext_lookup
  intro b
  rw [lookup_insert_eq]
  split_ifs with hb
  · rw [hb, ha]
  · rfl

lemma erase_insert_new (ha : a ∉ h) : (h.insert a v).erase a = h := by
  apply ext_lookup
  intro b
  rw [lookup_erase_eq]
  split_ifs with hb
  · rw [hb, lookup_eq_none.mpr ha]
  · exact lookup_insert_of_ne _ hb

lemma insert_erase (a : ℕ) (v : α) (h : ObjHeap α) : (h.erase a).insert a v = h.insert a v := by
  apply ext_lookup
  intro b
  rw [lookup_insert_eq, lookup_insert_eq]
  split_ifs with hb
  · rfl
  · exact lookup_erase_ne hb

lemma keys_insert : (h.insert a v).keys = insert a h.keys := by
  ext b
  rw [mem_keys, mem_insert, Finset.mem_insert, mem_keys]

@[simp] lemma total_empty (w : α → ℕ) : total (∅ : ObjHeap α) w = 0 := by
  rw [total, keys_empty, Finset.sum_empty]

lemma total_insert_new (ha : a ∉ h) : total (h.insert a v) w = total h w + w v := by
  have hkeys : a ∉ h.keys := fun hk => ha (mem_keys.mp hk)
  have hrest : ∑ b ∈ h.keys, (((h.insert a v).lookup b).map w).getD 0 = total h w := by
    apply Finset.sum_congr rfl
    intro b hb
    rw [lookup_insert_of_ne]
    exact fun hba => hkeys (hba ▸ hb)
  rw [total, keys_insert, Finset.sum_insert hkeys, hrest, lookup_insert, add_comm]
  rfl

lemma total_erase (ha : h.lookup a = some v) : total (h.erase a) w + w v = total h w := by
  have hnew : a ∉ h.erase a := notMem_erase_self
  rw [← total_insert_new hnew, insert_erase, insert_self ha]

lemma total_insert (ha : h.lookup a = some x) :
    total (h.insert a v) w + w x = total h w + w v := by
  have hnew : a ∉ h.erase a := notMem_erase_self
  rw [← insert_erase, total_insert_new hnew, ← total_erase ha]
  omega

lemma total_modify (hw : ∀ v, h.lookup a = some v → w (f v) = w v) :
    total (modify a f h) w = total h w := by
  cases ha : h.lookup a with
  | none => rw [modify_none ha]
  | some v =>
    have h1 := total_insert (v := f v) (w := w) ha
    have h2 := hw v ha
    rw [modify_some ha]
    omega

lemma le_total (ha : h.lookup a = some v) : w v ≤ total h w := by
  rw [← total_erase ha]
  exact Nat.le_add_left _ _

lemma total_eq_zero_iff : total h w = 0 ↔ ∀ a v, h.lookup a = some v → w v = 0 := by
  constructor
  · intro h0 a v ha
    have hle : w v ≤ total h w := le_total ha
    omega
  intro hz
  apply Finset.sum_eq_zero
  intro a _
  cases ha : h.lookup a with
  | none => rfl
  | some v => exact hz a v ha

end

end KLib
