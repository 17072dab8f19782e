import Obelisk.Slab.Invariant

/-!
# The slab lists of a cache

A slab changes its number of objects in use and may be moved to another list of its cache.
-/

namespace Obelisk

open KLib Function Finset KmemCache List

section Lists

variable {slabs : ℕ → Option Slab} {used : ℕ → Finset ℕ} {cache slab x : ℕ} {c c' : KmemCache}
  {sl : Slab} {U : Finset ℕ}

lemma KmemCache.mem_slabs : x ∈ c.slabs ↔ x ∈ c.slabsPartial ∨ x ∈ c.slabsFull ∨ x ∈ c.slabsFree := by
  rw [slabs, mem_append, mem_append]

section Nodup

variable (h : c.slabs.Nodup)
include h

lemma KmemCache.nodup_lists : c.slabsPartial.Nodup ∧ c.slabsFull.Nodup ∧ c.slabsFree.Nodup := by
  rw [slabs, nodup_append', nodup_append'] at h
  exact ⟨h.1, h.2.1.1, h.2.1.2.1⟩

lemma KmemCache.mem_listDel (slab x : ℕ) : (x ∈ (c.listDel slab).slabsPartial ↔ x ≠ slab ∧ x ∈ c.slabsPartial) ∧
    (x ∈ (c.listDel slab).slabsFull ↔ x ≠ slab ∧ x ∈ c.slabsFull) ∧
    (x ∈ (c.listDel slab).slabsFree ↔ x ≠ slab ∧ x ∈ c.slabsFree) := by
  obtain ⟨h1, h2, h3⟩ := nodup_lists h
  exact ⟨h1.mem_erase_iff, h2.mem_erase_iff, h3.mem_erase_iff⟩

lemma KmemCache.mem_slabs_listDel (slab x : ℕ) : x ∈ (c.listDel slab).slabs ↔ x ≠ slab ∧ x ∈ c.slabs := by
  obtain ⟨h1, h2, h3⟩ := mem_listDel h slab x
  rw [mem_slabs, mem_slabs, h1, h2, h3]
  tauto

lemma KmemCache.nodup_listDel (slab : ℕ) : (c.listDel slab).slabs.Nodup :=
  h.sublist (erase_sublist.append (erase_sublist.append erase_sublist))

lemma KmemCache.relist (hmem : slab ∈ c.slabs) (hperm : c'.slabs.Perm (slab :: (c.listDel slab).slabs)) :
    c'.slabs.Nodup ∧ ∀ x, x ∈ c'.slabs ↔ x ∈ c.slabs := by
  have hiff := mem_slabs_listDel h slab
  refine ⟨hperm.nodup_iff.mpr (List.nodup_cons.mpr ⟨fun hs => ((hiff slab).mp hs).1 rfl,
    nodup_listDel h slab⟩), fun x => ?_⟩
  rw [hperm.mem_iff, List.mem_cons, hiff]
  constructor
  · rintro (rfl | ⟨-, hx⟩)
    · exact hmem
    · exact hx
  intro hx
  by_cases he : x = slab
  · exact .inl he
  · exact .inr ⟨he, hx⟩

end Nodup

lemma CacheOk.update (h : CacheOk slabs used cache c) (hmem : slab ∈ c.slabs)
    (hgeom : c'.geom = c.geom) (hnodup : c'.slabs.Nodup) (hiff : ∀ x, x ∈ c'.slabs ↔ x ∈ c.slabs)
    (hok : SlabOk cache c.geom slab sl U)
    (hpart : ∀ x ∈ c'.slabsPartial, (x = slab ∧ U.card < c.objectsPerSlab) ∨ (x ≠ slab ∧ x ∈ c.slabsPartial))
    (hfull : ∀ x ∈ c'.slabsFull, (x = slab ∧ U.card = c.objectsPerSlab) ∨ (x ≠ slab ∧ x ∈ c.slabsFull))
    (hfree : ∀ x ∈ c'.slabsFree, (x = slab ∧ U = ∅) ∨ (x ≠ slab ∧ x ∈ c.slabsFree))
    (hactive : c'.activeObjects + (used slab).card = c.activeObjects + U.card) :
    CacheOk (Function.update slabs slab (some sl)) (Function.update used slab U) cache c' := by
  have hn : c'.objectsPerSlab = c.objectsPerSlab := congrArg SlabGeom.objectsPerSlab hgeom
  refine ⟨hgeom ▸ h.geom, hnodup, ?_, ?_, ?_, ?_, ?_⟩
  · intro x hx
    by_cases he : x = slab
    · subst he
      exact ⟨sl, update_self .., by rwa [update_self, hgeom]⟩
    rw [update_of_ne he, update_of_ne he, hgeom]
    exact h.slab x ((hiff x).mp hx)
  · intro x hx
    rw [hn]
    rcases hpart x hx with ⟨rfl, hU⟩ | ⟨he, hx⟩
    · rwa [update_self]
    rw [update_of_ne he]
    exact h.part x hx
  · intro x hx
    rw [hn]
    rcases hfull x hx with ⟨rfl, hU⟩ | ⟨he, hx⟩
    · rwa [update_self]
    rw [update_of_ne he]
    exact h.full x hx
  · intro x hx
    rcases hfree x hx with ⟨rfl, hU⟩ | ⟨he, hx⟩
    · rwa [update_self]
    rw [update_of_ne he]
    exact h.free x hx
  have hset : c'.slabs.toFinset = c.slabs.toFinset := by
    ext x
    rw [mem_toFinset, mem_toFinset, hiff]
  have hmem' := mem_toFinset.mpr hmem
  have hsum := h.active
  rw [← add_sum_erase _ _ hmem'] at hsum
  rw [hset, ← add_sum_erase _ _ hmem', update_self]
  have hrest : ∑ x ∈ c.slabs.toFinset.erase slab, (Function.update used slab U x).card =
      ∑ x ∈ c.slabs.toFinset.erase slab, (used x).card :=
    sum_congr rfl fun x hx => by rw [update_of_ne (ne_of_mem_erase hx)]
  omega

lemma CacheOk.add (h : CacheOk slabs used cache c) (hnew : slab ∉ c.slabs)
    (hok : SlabOk cache c.geom slab sl ∅) (n m : ℕ) :
    CacheOk (Function.update slabs slab (some sl)) (Function.update used slab ∅) cache
      (addPartial slab { c with totalSlabs := n, totalObjects := m }) := by
  have hne : ∀ x ∈ c.slabs, x ≠ slab := fun x hx he => hnew (he ▸ hx)
  refine ⟨h.geom, nodup_cons.mpr ⟨hnew, h.nodup⟩, ?_, ?_, ?_, ?_, ?_⟩
  · intro x hx
    rcases mem_cons.mp hx with rfl | hx
    · exact ⟨sl, update_self .., by rwa [update_self]⟩
    rw [update_of_ne (hne x hx), update_of_ne (hne x hx)]
    exact h.slab x hx
  · intro x hx
    rcases mem_cons.mp hx with rfl | hx
    · rw [update_self, card_empty]
      exact h.geom.objs_pos
    rw [update_of_ne (hne x (mem_slabs.mpr (.inl hx)))]
    exact h.part x hx
  · intro x hx
    rw [update_of_ne (hne x (mem_slabs.mpr (.inr (.inl hx))))]
    exact h.full x hx
  · intro x hx
    rw [update_of_ne (hne x (mem_slabs.mpr (.inr (.inr hx))))]
    exact h.free x hx
  have hset : (addPartial slab { c with
      totalSlabs := n, totalObjects := m }).slabs.toFinset = insert slab c.slabs.toFinset :=
    toFinset_cons ..
  rw [hset, sum_insert (by rwa [mem_toFinset]), update_self, card_empty, zero_add]
  refine h.active.trans (sum_congr rfl fun x hx => ?_)
  rw [update_of_ne (hne x (mem_toFinset.mp hx))]

end Lists

end Obelisk
