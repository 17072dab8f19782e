import Obelisk.RbTree.Memory

/-!
# Red-black tree: insertion

`rb_link_node` puts a red node at a `NULL` link and `rb_insert_color` computes `insertFix`.
-/

namespace Obelisk

open KLib KLib.ColorTree HoldsTree

variable {s : RbState} {p : TreePath ℕ} {f g : Frame ℕ}
variable {a : ℕ} {t : RbShape}

def linkSide (p : TreePath ℕ) : Option Side := p.head?.map (·.side)

lemma HoldsTree.link (h : HoldsTree s (plug p .nil)) (ha : IsNode a) (hnew : a ∉ inorder (plug p .nil)) :
    HoldsTree (rbLinkNode a (above p) (linkSide p) s) (plug p (.node .red .nil a .nil)) := by
  obtain ⟨hp, -, hn⟩ := holdsTree_plug.mp h
  have hap : a ∉ pathKeys p := fun hk =>
    hnew ((inorder_plug_perm p .nil).mem_iff.mpr (List.mem_append_right _ hk))
  have hother : ∀ k ∈ pathKeys p, (s.upd a fun _ => ⟨above p, 0, 0⟩).mem k = s.mem k := fun k hk => by
    have hka : k ≠ a := fun e => hap (e ▸ hk)
    rw [upd_mem, if_neg hka]
  have he : rbLinkNode a (above p) (linkSide p) s = linkPath p a (s.upd a fun _ => ⟨above p, 0, 0⟩) := by
    cases p <;> rfl
  have hp' : PathIn (s.upd a fun _ => ⟨above p, 0, 0⟩).mem s.root p 0 := hp.congr hother
  rw [he]
  refine holdsTree_plug.mpr ⟨hp'.link hn a, ⟨ha, ?_, trivial, trivial⟩, ?_⟩
  · rw [linkPath_mem _ _ hap, upd_mem, if_pos rfl]
    rfl
  · exact List.nodup_cons.mpr ⟨hap, hn⟩

section Round

variable {d : Side} {c c' : Color} {a P G : ℕ} {t S U X Y : RbShape}

lemma HoldsTree.insertUp (h : HoldsTree s (plug p (branch d c (branch d c' t P S) G U))) :
    HoldsTree (rbRotate d.flip G ((s.setColor P (rbBit .black)).setColor G (rbBit .red)))
      (plug p (branch d .black t P (branch d .red S G U))) := by
  have h1 := setColor (p := ⟨d, c, G, U⟩ :: p) h .black
  have h2 := setColor (p := p) h1 .red
  rw [← branch_flip d .red, ← branch_flip d .black] at h2
  have h3 := h2.rotate
  rwa [branch_flip, branch_flip] at h3

lemma HoldsTree.insertRotate_outer (ht : t ≠ .nil) (h : HoldsTree s (plug p (branch d c (branch d c' t P S) G U))) :
    (rbInsertRotate d (addr t) P G s).1 = addr t ∧ HoldsTree (rbInsertRotate d (addr t) P G s).2
        (plug p (branch d .black t P (branch d .red S G U))) := by
  have hinner : ¬addr t = (s.mem P).child d.flip := by
    rw [child_flip_eq (p := ⟨d, c, G, U⟩ :: p) h]
    exact addr_ne (p := ⟨d, c, G, U⟩ :: p) h (.inl ht)
  simp only [rbInsertRotate, if_neg hinner, true_and]
  exact h.insertUp

lemma HoldsTree.insertRotate_inner
    (h : HoldsTree s (plug p (branch d c (branch d.flip .red (branch d c' X a Y) P S) G U))) :
    (rbInsertRotate d a P G s).1 = P ∧ HoldsTree (rbInsertRotate d a P G s).2
        (plug p (branch d .black (branch d .red S P X) a (branch d .red Y G U))) := by
  rw [branch_flip] at h
  have hinner : a = (s.mem P).child d.flip :=
    (child_flip_eq (p := ⟨d, c, G, U⟩ :: p) h).symm
  simp only [rbInsertRotate, if_pos hinner, true_and]
  have h1 := rotate (p := ⟨d, c, G, U⟩ :: p) h
  exact insertUp h1

end Round

lemma HoldsTree.insertRotate {l r : RbShape} {c : Color}
    (h : HoldsTree s (plug (f :: g :: p) (.node c l a r))) (hf : f.color = .red) :
    ∃ k t u, ColorTree.insertRotate f g (.node c l a r) = branch g.side .black t k u ∧ t ≠ .nil ∧
      (rbInsertRotate g.side a f.key g.key s).1 = addr t ∧
      HoldsTree (rbInsertRotate g.side a f.key g.key s).2 (plug p (branch g.side .black t k u)) := by
  obtain ⟨fd, fc, P, S⟩ := f
  obtain ⟨d, gc, G, U⟩ := g
  dsimp only at hf ⊢
  subst hf
  by_cases hd : fd = d
  · subst hd
    have h' := @insertRotate_outer s p fd gc .red P G (.node c l a r) S U nofun h
    exact ⟨P, _, _, if_pos rfl, nofun, h'⟩
  have hfd : fd = d.flip := by
    revert hd
    cases fd <;> cases d <;> decide
  subst hfd
  rw [← branch_pick d] at h
  have h' := insertRotate_inner (p := p) h
  refine ⟨a, _, _, if_neg hd, nofun, h'⟩

lemma HoldsTree.parent_eq (h : HoldsTree s (plug p t)) (ht : t ≠ .nil) :
    (s.mem (addr t)).parent = above p := by
  cases t with
  | nil => exact absurd rfl ht
  | node c l a r =>
    obtain ⟨-, hd, hm⟩ := read (d := .left) h
    rw [addr, hm, RbNode.parent_mk hd]

lemma HoldsTree.above_isRed (h : HoldsTree s (plug (f :: p) t)) :
    (f.key ≠ 0 ∧ (s.mem f.key).isRed = true) ↔ f.color = .red := by
  refine (isRed_iff (p := p) (x := f.fill t) h).trans ?_
  rw [Frame.fill, branch]
  cases f.color <;> simp [isRed]

lemma rbInsertColor_stop (fuel : ℕ) (h : HoldsTree s (plug p t)) (ht : t ≠ .nil)
    (hp : ∀ f ∈ p.head?, f.color = .black) :
    ∃ s', rbInsertColor (fuel + 1) (addr t) s = some s' ∧
      HoldsTree s' (ColorTree.blacken (plug p t)) := by
  have hstop : ¬((s.mem (addr t)).parent ≠ 0 ∧ (s.mem (s.mem (addr t)).parent).isRed) := by
    rw [h.parent_eq ht]
    cases p with
    | nil => simp [above]
    | cons f p =>
      intro hc
      have hred := h.above_isRed.mp hc
      rw [hp f rfl] at hred
      cases hred
  refine ⟨_, if_neg hstop, ?_⟩
  rw [h.root]
  exact blacken (p := []) h (plug_ne_nil ht)

lemma rbInsertColor_round (fuel : ℕ)
    (h : HoldsTree s (plug (f :: g :: p) t)) (ht : t ≠ .nil) (hf : f.color = .red) :
    rbInsertColor (fuel + 1) (addr t) s = if g.sib.isRed then
        rbInsertColor fuel g.key (((s.setColor (addr g.sib) (rbBit .black)).setColor f.key
          (rbBit .black)).setColor g.key (rbBit .red))
      else
        rbInsertColor fuel (rbInsertRotate g.side (addr t) f.key g.key s).1
          (rbInsertRotate g.side (addr t) f.key g.key s).2 := by
  have hround := h.above_isRed.mpr hf
  have hg : (s.mem f.key).parent = g.key := parent_eq (p := g :: p) (t := f.fill t) h nofun
  have hside := side_eq (p := p) (x := f.fill t) h (.inl nofun)
  have huncle : (s.mem g.key).child g.side.flip = addr g.sib :=
    child_flip_eq (p := p) (x := f.fill t) h
  have hred : (addr g.sib ≠ 0 ∧ (s.mem (addr g.sib)).isRed = true) ↔ g.sib.isRed = true := by
    refine isRed_iff (p := ⟨g.side.flip, g.color, g.key, f.fill t⟩ :: p) ?_
    rwa [plug_sib]
  rw [addr_fill] at hside
  rw [rbInsertColor]
  dsimp only
  rw [h.parent_eq ht, above, if_pos hround, hg, hside, huncle]
  exact if_congr hred rfl rfl

lemma rbInsertColor_spec {n fuel : ℕ} (h : HoldsTree s (plug p t)) (ht : IsRb t .red n)
    (hp : Accepts p .black n) (hfuel : p.length + 1 < fuel) :
    ∃ s', rbInsertColor fuel (addr t) s = some s' ∧ HoldsTree s' (insertFix p t) := by
  have hnil : ∀ {t : RbShape} {n}, IsRb t .red n → t ≠ .nil := by
    rintro _ _ ⟨⟩
    nofun
  obtain ⟨fuel, rfl⟩ : ∃ k, fuel = k + 1 := ⟨fuel - 1, by omega⟩
  fun_induction insertFix p t generalizing s fuel n with
  | case1 f g p t hf hu ih =>
    rw [rbInsertColor_round fuel h (hnil ht) hf, if_pos hu]
    -- the uncle, the parent and the grandparent are painted in turn
    have h1 : HoldsTree (s.setColor (addr g.sib) (rbBit .black))
        (plug (f :: { g with sib := g.sib.blacken } :: p) t) := by
      rw [plug, ← plug_sib] at h ⊢
      exact h.blacken fun e => by simp [e, isRed] at hu
    have h2 := setColor (p := { g with sib := g.sib.blacken } :: p) h1 .black
    have h3 := setColor (p := p) h2 .red
    cases hp with
    | black => cases hf
    | red hs hp =>
      cases hp with
      | black hu' hp =>
        obtain ⟨fuel, rfl⟩ : ∃ k, fuel = k + 1 := ⟨fuel - 1, by simp at hfuel; omega⟩
        refine ih h3 (.branch_red _ (.branch_black _ ht hs) (hu'.of_isRed hu).blacken_red) hp fuel ?_
        simp only [List.length_cons] at hfuel
        omega
  | case2 f g p t hf hu =>
    rw [rbInsertColor_round fuel h (hnil ht) hf, if_neg hu]
    obtain ⟨fuel, rfl⟩ : ∃ k, fuel = k + 1 := ⟨fuel - 1, by simp at hfuel; omega⟩
    cases ht with
    | @red l r a _ hl hr =>
      obtain ⟨k, t, u, he, ht, hnode, h'⟩ := h.insertRotate hf
      rw [addr, he, hnode]
      exact rbInsertColor_stop (p := ⟨g.side, .black, k, u⟩ :: p) fuel h' ht fun f' hf' => by
        cases hf'
        rfl
  | case3 f g p t hf =>
    refine rbInsertColor_stop fuel h (hnil ht) fun f' hf' => ?_
    cases hf'
    cases hc : f.color with
    | red => exact absurd hc hf
    | black => rfl
  | case4 p t h' =>
    refine rbInsertColor_stop fuel h (hnil ht) fun f' hf' => ?_
    cases hp with
    | root => cases hf'
    | black => cases hf'; rfl
    | red hs hp =>
      cases hp with
      | black => exact (h' _ _ _ rfl).elim

end Obelisk
