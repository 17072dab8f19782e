import Obelisk.RbTree.Insert

/-!
# Red-black tree: removal

`rb_erase` takes a node out of the tree and `rb_erase_color` computes `eraseFix`.
-/

namespace Obelisk

open KLib KLib.ColorTree List HoldsTree

variable {s : RbState} {p : TreePath ℕ} {r sib : RbShape} {fuel n : ℕ}
variable {a : ℕ} {d : Side} {c : Color} {f : Frame ℕ} {l t : RbShape}

section Rotate

variable {d : Side} {c cs cn : Color} {a b k : ℕ} {t near far x y : RbShape}

lemma HoldsTree.eraseUp (h : HoldsTree s (plug p (branch d c t a (branch d cs near b far)))) (hf : far ≠ .nil) :
    HoldsTree (rbEraseUp d a b s)
      (ColorTree.blacken (plug p (branch d c (branch d .black t a near) b far.blacken))) := by
  have hcol : (s.mem a).color = rbBit c := by
    rw [h.read.2.2, RbNode.color_mk h.read.2.1]
  rw [← plug_other] at h
  have h1 := h.setColor c
  rw [plug_other] at h1
  have h2 := h1.setColor .black
  rw [← plug_other] at h2
  have hfar := h2.child_flip_eq
  rw [← plug_other] at h2
  have h3 := h2.blacken hf
  rw [plug_other, plug_other] at h3
  have h4 := h3.rotate
  have h0 : addr (plug p (branch d c (branch d .black t a near) b far.blacken)) ≠ 0 :=
    h4.tree.addr_ne_zero (plug_ne_nil nofun)
  dsimp only [rbEraseUp]
  rw [hcol, hfar, h4.root, if_pos h0]
  exact blacken (p := []) h4 (plug_ne_nil nofun)

lemma HoldsTree.eraseInner (h : HoldsTree s (plug p (branch d c t a (branch d cs (branch d cn x k y) b far)))) :
    HoldsTree (rbRotate d.flip b ((s.setColor k (rbBit .black)).setColor b (rbBit .red)))
      (plug p (branch d c t a (branch d .black x k (branch d .red y b far)))) := by
  rw [← plug_other] at h
  have h1 := setColor (p := ⟨d, cs, b, far⟩ :: ⟨d.flip, c, a, t⟩ :: p) h .black
  have h2 := setColor (p := ⟨d.flip, c, a, t⟩ :: p) h1 .red
  rw [← branch_flip d .red, ← branch_flip d .black] at h2
  have h3 := h2.rotate
  rwa [branch_flip, branch_flip, plug_other] at h3

lemma HoldsTree.eraseRotate (h : HoldsTree s (plug p (branch d c t a sib)))
    (hs : sib ≠ .nil) (hb : ¬sib.bothBlack) :
    HoldsTree (rbEraseRotate d a (addr sib) s)
      (ColorTree.blacken (plug p (ColorTree.eraseRotate d c a t sib))) := by
  obtain ⟨cs, near, b, far, rfl⟩ : ∃ cs near b far, sib = branch d cs near b far := by
    cases sib with
    | nil => exact absurd rfl hs
    | node cs l b r => exact ⟨cs, _, b, _, (branch_pick d cs l b r).symm⟩
  rw [bothBlack_branch] at hb
  have h' := h
  rw [← plug_other] at h'
  have hchild := h'.child_flip_eq
  have hnear := h'.child_eq
  rw [← plug_other] at h'
  rw [rbEraseRotate, addr_branch, hchild, h'.blackOrNull_eq, eraseRotate_branch]
  by_cases hf : far.isRed
  · rw [if_neg (by simp [hf]), if_pos hf]
    exact h.eraseUp fun e => by simp [e, isRed] at hf
  rw [if_pos (by simp [hf]), if_neg hf, hnear]
  cases near with
  | nil =>
    rw [Bool.not_eq_true] at hf
    exact absurd (by rw [hf]; rfl) hb
  | node cn xl k xr =>
    rw [← branch_pick d] at h
    have h1 := h.eraseInner
    have h2 := h1.child_flip_eq
    dsimp only [addr]
    rw [h2, addr_branch]
    exact h1.eraseUp (by rintro ⟨⟩)

lemma HoldsTree.bothBlack_iff (h : HoldsTree s (plug p sib)) (hs : sib ≠ .nil) :
    (s.blackOrNull (s.mem (addr sib)).left = true ∧ s.blackOrNull (s.mem (addr sib)).right = true) ↔
      sib.bothBlack = true := by
  cases sib with
  | nil => exact absurd rfl hs
  | node cs l b r =>
    obtain ⟨-, -, hm⟩ := read (d := .left) h
    have hl := blackOrNull_eq (p := ⟨.left, cs, b, r⟩ :: p) (x := l) h
    have hr := blackOrNull_eq (p := ⟨.right, cs, b, l⟩ :: p) (x := r) h
    rw [addr, hm, bothBlack, Bool.and_eq_true, ← hl, ← hr]
    rfl

end Rotate

lemma addr_plug_mem (f : Frame ℕ) (p : TreePath ℕ) (t : RbShape) :
    addr (plug (f :: p) t) ∈ pathKeys (f :: p) := by
  induction p generalizing f t with
  | nil => exact mem_cons_self
  | cons g p ih => exact mem_cons_of_mem _ (mem_append_right _ (ih g (f.fill t)))

lemma HoldsTree.addr_ne_root (h : HoldsTree s (plug (f :: p) t)) : addr t ≠ s.root := by
  rw [h.root]
  intro e
  obtain ⟨-, -, hn⟩ := holdsTree_plug.mp h
  have hroot := addr_plug_mem f p t
  by_cases ht : t = .nil
  · rw [ht] at e
    exact h.tree.addr_ne_zero (plug_ne_nil (t := f.fill t) nofun) (ht ▸ e.symm)
  · exact (nodup_append.mp hn).2.2 _ (addr_mem ht) _ hroot e

lemma rbEraseColor_stop (fuel q : ℕ) (h : HoldsTree s (plug p t)) (hp : p = [] ∨ t.isRed) :
    ∃ s', rbEraseColor (fuel + 1) (addr t) q s = some s' ∧ HoldsTree s' (plug p t.blacken) := by
  have hstop : ¬(s.blackOrNull (addr t) = true ∧ addr t ≠ s.root) := by
    rw [h.blackOrNull_eq]
    rcases hp with rfl | hr
    · exact fun hc => hc.2 h.root.symm
    · simp [hr]
  refine ⟨_, if_neg hstop, ?_⟩
  by_cases ht : t = .nil
  · subst ht
    exact h
  have h0 : addr t ≠ 0 := (holdsTree_plug.mp h).2.1.addr_ne_zero ht
  rw [if_pos h0]
  exact h.blacken ht

lemma rbEraseColor_round (fuel : ℕ) (h : HoldsTree s (plug (f :: p) t)) (ht : ¬t.isRed) (hs : f.sib ≠ .nil) :
    rbEraseColor (fuel + 1) (addr t) f.key s = let r := rbEraseSib f.side f.key s
      if r.2.blackOrNull (r.2.mem r.1).left ∧ r.2.blackOrNull (r.2.mem r.1).right then
        let s := r.2.setColor r.1 (rbBit .red)
        rbEraseColor fuel f.key (s.mem f.key).parent s
      else some (rbEraseRotate f.side f.key r.1 r.2) := by
  have hround : s.blackOrNull (addr t) = true ∧ addr t ≠ s.root := by
    rw [h.blackOrNull_eq]
    exact ⟨by simp [ht], h.addr_ne_root⟩
  have hside := side_eq (p := p) h (.inr hs)
  simp only [eq_comm (a := addr t)] at hside
  rw [rbEraseColor]
  dsimp only
  rw [if_pos hround, hside]

lemma rbEraseSib_black (h : HoldsTree s (plug (f :: p) t))
    (hs : f.sib ≠ .nil) (hb : ¬f.sib.isRed) : rbEraseSib f.side f.key s = (addr f.sib, s) := by
  have hsib := child_flip_eq (p := p) (d := f.side) (a := f.key) (y := f.sib) h
  have h' := h
  rw [← plug_sib] at h'
  have hred : ¬(s.mem (addr f.sib)).isRed := fun hr =>
    hb (h'.isRed_iff.mp ⟨(holdsTree_plug.mp h').2.1.addr_ne_zero hs, hr⟩)
  rw [rbEraseSib, hsib]
  exact if_neg hred

lemma rbEraseSib_red {b : ℕ} {near far : RbShape}
    (h : HoldsTree s (plug p (branch d c t a (branch d .red near b far)))) :
    (rbEraseSib d a s).1 = addr near ∧ HoldsTree (rbEraseSib d a s).2
      (plug (⟨d, .black, b, far⟩ :: p) (branch d .red t a near)) := by
  have hsib := h.child_flip_eq
  have h' := h
  rw [← plug_other] at h'
  have hred : (s.mem (addr (branch d .red near b far))).isRed := (h'.isRed_iff.mpr rfl).2
  have h1 := h'.setColor .black
  rw [plug_other] at h1
  have h2 := (h1.setColor .red).rotate
  rw [rbEraseSib, hsib]
  simp only [if_pos hred]
  exact ⟨child_flip_eq (p := ⟨d, .black, b, far⟩ :: p) h2, h2⟩

lemma rbEraseColor_spec (h : HoldsTree s (plug p t))
    (ht : IsRb t c n) (hp : Accepts p .black (n + 1)) (hfuel : p.length + 1 < fuel) :
    ∃ s', rbEraseColor fuel (addr t) (above p) s = some s' ∧ HoldsTree s' (eraseFix p t) := by
  obtain ⟨fuel, rfl⟩ : ∃ k, fuel = k + 1 := ⟨fuel - 1, by omega⟩
  fun_induction eraseFix p t generalizing s fuel c n with
  | case1 t => exact rbEraseColor_stop fuel _ h (.inl rfl)
  | case2 f p t hr => exact rbEraseColor_stop fuel _ h (.inr hr)
  | case3 f p t hr hs =>
    have hne := hp.sib_ne_nil
    rw [above, rbEraseColor_round fuel h hr hne]
    cases hp with
    | red hs' =>
      cases hs'
      cases hs
    | @black d a sib _ _ _ _ hs' hp =>
      obtain ⟨fuel, rfl⟩ : ∃ k, fuel = k + 1 := ⟨fuel - 1, by simp at hfuel; omega⟩
      obtain ⟨near, b, far, rfl, hn, -⟩ := (hs'.of_isRed hs).exists_branch d
      dsimp only
      obtain ⟨h1, h2⟩ := rbEraseSib_red (p := p) h
      have h2' := h2
      rw [← plug_other] at h2'
      have hiff := h2'.bothBlack_iff hn.ne_nil
      rw [h1, eraseRed_branch]
      by_cases hb : near.bothBlack
      · -- the parent is red, so that the next round paints it and ends
        rw [if_pos (hiff.mpr hb), if_pos hb]
        have h3 := h2'.redden hn.ne_nil
        rw [plug_other] at h3
        exact rbEraseColor_stop fuel _ h3 (.inr rfl)
      rw [if_neg (mt hiff.mp hb), if_neg hb]
      exact ⟨_, rfl, h2.eraseRotate hn.ne_nil hb⟩
  | case4 f p t hr hs hb ih =>
    have hne := hp.sib_ne_nil
    rw [above, rbEraseColor_round fuel h hr hne, rbEraseSib_black h hne hs]
    have h' := h
    rw [← plug_sib] at h'
    dsimp only
    rw [if_pos ((h'.bothBlack_iff hne).mpr hb)]
    have h1 := h'.redden hne
    rw [plug_other] at h1
    obtain ⟨fuel, rfl⟩ : ∃ k, fuel = k + 1 := ⟨fuel - 1, by simp at hfuel; omega⟩
    have hpar := parent_eq (p := p) h1 (by rintro ⟨⟩)
    rw [addr_branch] at hpar
    rw [hpar]
    have hsib := (hp.sib_black hs).redden hb
    cases hp with
    | red =>
      rw [eraseFix_of_isRed p rfl]
      exact rbEraseColor_stop fuel _ h1 (.inr rfl)
    | black _ hp =>
      refine ih h1 (.branch_black _ ht hsib) hp fuel ?_
      simp only [length_cons] at hfuel
      omega
  | case5 f p t hr hs hb =>
    have hne := hp.sib_ne_nil
    rw [above, rbEraseColor_round fuel h hr hne, rbEraseSib_black h hne hs]
    have h' := h
    rw [← plug_sib] at h'
    dsimp only
    rw [if_neg (mt (h'.bothBlack_iff hne).mp hb)]
    exact ⟨_, rfl, h.eraseRotate hne hb⟩

lemma setParent_mem (s : RbState) (a k q : ℕ) :
    (s.setParent a q).mem k = if k = a then (s.mem a).setParent q else s.mem k := upd_mem ..

lemma setChild_mem (s : RbState) (d : Side) (a k x : ℕ) :
    (s.setChild d a x).mem k = if k = a then (s.mem a).setChild d x else s.mem k := upd_mem ..

lemma HoldsTree.unlink (h : HoldsTree s (plug p (branch d c .nil a t))) :
    (rbUnlink a (addr t) s).1 = ⟨addr t, above p, rbBit c⟩ ∧
      HoldsTree (rbUnlink a (addr t) s).2 (plug p t) := by
  obtain ⟨hp, hb, hn⟩ := holdsTree_plug.mp h
  obtain ⟨ha, hma, -, ht⟩ := treeIn_branch.mp hb
  have hdvd := hp.dvd_above
  have hn' := ((inorder_branch_perm d c .nil a t).append_right (pathKeys p)).nodup_iff.mp hn
  simp only [inorder, nil_append, cons_append, nodup_cons, mem_append, not_or, nodup_append] at hn'
  obtain ⟨⟨hat, hap⟩, htn, hpn, htp⟩ := hn'
  -- the child gets the node's parent, and the parent the child
  obtain ⟨s1, hs1⟩ : ∃ s1, s1 = if addr t ≠ 0 then s.setParent (addr t) (above p) else s := ⟨_, rfl⟩
  have hroot : s1.root = s.root := by
    rw [hs1]
    split_ifs <;> rfl
  have hmem : ∀ k, (t = .nil ∨ k ≠ addr t) → s1.mem k = s.mem k := by
    intro k hk
    rw [hs1]
    split_ifs with h0
    · rw [setParent_mem, if_neg (hk.resolve_left fun e => h0 (ht.addr_eq_zero.mpr e))]
    · rfl
  have hp1 : PathIn s1.mem s1.root p a := by
    rw [hroot]
    exact hp.congr fun k hk => hmem k (or_iff_not_imp_left.mpr fun h0 e =>
      htp _ (addr_mem h0) k hk e.symm)
  have he : rbUnlink a (addr t) s = (⟨addr t, above p, rbBit c⟩, linkPath p (addr t) s1) := by
    rw [rbUnlink, hma, RbNode.parent_mk hdvd, RbNode.color_mk hdvd, ← relink_eq .left _ hp1 ha.1 hap, hs1]
  rw [he]
  refine ⟨rfl, holdsTree_plug.mpr ⟨hp1.link hpn _, ?_, ?_⟩⟩
  · have hkp : ∀ k ∈ inorder t, k ∉ pathKeys p := fun k hk hk' => htp k hk k hk' rfl
    refine ht.reparent htn ha.2 hdvd (fun k hk hkt => ?_) fun h0 => ?_
    · rw [linkPath_mem _ _ (hkp k hk), hmem k (.inr hkt)]
    rw [linkPath_mem _ _ (hkp _ (addr_mem h0)), hs1, if_pos (ht.addr_ne_zero h0), setParent_mem, if_pos rfl]
  · exact nodup_append.mpr ⟨htn, hpn, htp⟩

/-! ## A node with two children -/

def aboveFrom (base : ℕ) : TreePath ℕ → ℕ
  | [] => base
  | f :: _ => f.key

def topOf : TreePath ℕ → ℕ → ℕ
  | [], hole => hole
  | f :: q, _ => topOf q f.key

def SegIn (m : ℕ → RbNode) (base : ℕ) : TreePath ℕ → ℕ → Prop
  | [], _ => True
  | f :: q, hole =>
    IsNode f.key ∧ m f.key = ⟨aboveFrom base q + rbBit f.color, (f.side.pick hole (addr f.sib)).1,
      (f.side.pick hole (addr f.sib)).2⟩ ∧ TreeIn m f.key f.sib ∧ SegIn m base q f.key

section Segment

variable {m m' : ℕ → RbNode} {base base' root hole : ℕ} {q : TreePath ℕ} {f g : Frame ℕ}

lemma above_append (q : TreePath ℕ) (g : Frame ℕ) (p : TreePath ℕ) :
    above (q ++ g :: p) = aboveFrom g.key q := by
  cases q <;> rfl

lemma pathIn_append : PathIn m root (q ++ g :: p) hole ↔
    SegIn m g.key q hole ∧ PathIn m root (g :: p) (topOf q hole) := by
  induction q generalizing hole with
  | nil => exact (iff_of_eq (true_and _)).symm
  | cons f q ih =>
    rw [cons_append, PathIn, ih, SegIn, topOf, above_append]
    tauto

lemma pathKeys_append (q p : TreePath ℕ) : pathKeys (q ++ p) = pathKeys q ++ pathKeys p := by
  induction q with
  | nil => rfl
  | cons f q ih => simp [pathKeys, ih]

lemma SegIn.congr (h : SegIn m base q hole) (hm : ∀ k ∈ pathKeys q, m' k = m k) :
    SegIn m' base q hole := by
  induction q generalizing hole with
  | nil => trivial
  | cons f q ih =>
    simp only [pathKeys, mem_append, mem_cons] at hm
    obtain ⟨hn, hf, hs, hq⟩ := h
    exact ⟨hn, by rw [hm f.key (.inl rfl), hf], hs.congr fun k hk => hm k (.inr (.inl hk)),
      ih hq fun k hk => hm k (.inr (.inr hk))⟩

lemma topOf_mem (f : Frame ℕ) (q : TreePath ℕ) (hole : ℕ) : topOf (f :: q) hole ∈ pathKeys (f :: q) := by
  induction q generalizing f hole with
  | nil => exact mem_cons_self
  | cons g q ih => exact mem_cons_of_mem _ (mem_append_right _ (ih g f.key))

lemma nodup_frame (hn : (pathKeys (f :: q)).Nodup) :
    f.key ∉ inorder f.sib ∧ f.key ∉ pathKeys q ∧ (pathKeys q).Nodup ∧
      ∀ k ∈ inorder f.sib, k ∉ pathKeys q := by
  simp only [pathKeys, nodup_cons, nodup_append, mem_append, not_or] at hn
  obtain ⟨⟨h1, h2⟩, -, h3, h4⟩ := hn
  exact ⟨h1, h2, h3, fun k hk hk' => h4 k hk k hk' rfl⟩

lemma SegIn.rebase (h : SegIn s.mem base (f :: q) hole)
    (hn : (pathKeys (f :: q)).Nodup) (hb : 4 ∣ base) (hb' : 4 ∣ base') :
    SegIn (s.setParent (topOf (f :: q) hole) base').mem base' (f :: q) hole := by
  induction q generalizing f hole with
  | nil =>
    obtain ⟨hk, hf, hs, -⟩ := h
    refine ⟨hk, ?_, hs.congr fun k hk => ?_, trivial⟩
    · rw [topOf, topOf, setParent_mem, if_pos rfl, hf]
      exact RbNode.setParent_mk hb hb'
    rw [topOf, topOf, setParent_mem, if_neg]
    rintro rfl
    exact (nodup_frame hn).1 hk
  | cons g q ih =>
    obtain ⟨hk, hf, hs, hq⟩ := h
    obtain ⟨h1, h2, h3, h4⟩ := nodup_frame hn
    have htop := topOf_mem g q f.key
    have hmem : ∀ k, k ∉ pathKeys (g :: q) →
        (s.setParent (topOf (g :: q) f.key) base').mem k = s.mem k := by
      intro k hk
      have hne : k ≠ topOf (g :: q) f.key := fun e => hk (e ▸ htop)
      rw [setParent_mem, if_neg hne]
    exact ⟨hk, (hmem _ h2).trans hf, hs.congr fun k hk => hmem k (h4 k hk), ih hq h3⟩

lemma SegIn.link (h : SegIn s.mem base (f :: q) hole) (hn : (pathKeys (f :: q)).Nodup) (x : ℕ) :
    SegIn (s.setChild f.side f.key x).mem base (f :: q) x := by
  obtain ⟨hk, hf, hs, hq⟩ := h
  obtain ⟨h1, h2, -, -⟩ := nodup_frame hn
  have hmem : ∀ k, k ≠ f.key → (s.setChild f.side f.key x).mem k = s.mem k := fun k hk =>
    (setChild_mem ..).trans (if_neg hk)
  refine ⟨hk, ?_, hs.congr fun k hk => hmem k ?_, hq.congr fun k hk => hmem k ?_⟩
  · rw [setChild_mem, if_pos rfl, hf, RbNode.setChild_pick]
  · exact fun e => h1 (e ▸ hk)
  · exact fun e => h2 (e ▸ hk)

end Segment

section Replace

variable {c cm : Color} {a m : ℕ} {l rm : RbShape} {q : TreePath ℕ}

lemma nodup_replace (h : (inorder (.node cm .nil m rm) ++ pathKeys (q ++ ⟨.right, c, a, l⟩ :: p)).Nodup) :
    (a :: m :: (inorder l ++ (inorder rm ++ (pathKeys q ++ pathKeys p)))).Nodup := by
  refine (List.Perm.nodup_iff (perm_iff_count.mpr fun k => ?_)).mp h
  rw [pathKeys_append]
  simp only [pathKeys, inorder, count_append, count_cons, nil_append]
  omega

lemma nodup_replaced (h : (inorder (.node cm .nil m rm) ++ pathKeys (q ++ ⟨.right, c, a, l⟩ :: p)).Nodup) :
    (inorder rm ++ pathKeys (q ++ ⟨.right, c, m, l⟩ :: p)).Nodup := by
  rw [nodup_iff_count_le_one] at h ⊢
  intro k
  have hk := h k
  simp only [pathKeys_append, pathKeys, inorder, count_append, count_cons, nil_append] at hk ⊢
  omega

lemma HoldsTree.replace_child (hl : l ≠ .nil)
    (h : HoldsTree s (plug (⟨.right, c, a, l⟩ :: p) (.node cm .nil m rm))) :
    (rbReplace a m s).1 = ⟨addr rm, m, rbBit cm⟩ ∧
      HoldsTree (rbReplace a m s).2 (plug (⟨.right, c, m, l⟩ :: p) rm) := by
  obtain ⟨⟨ha, hma, hL, hp⟩, ⟨hm, hmm, -, hR⟩, hn⟩ := holdsTree_plug.mp h
  have hdvd := hp.dvd_above
  have hn' := nodup_replace (q := []) hn
  simp only [nodup_cons, mem_cons, mem_append, not_or, nodup_append, pathKeys, nil_append] at hn'
  obtain ⟨⟨ham, hal, har, hap⟩, ⟨hml, hmr, hmp⟩, hln, ⟨hrn, hpn, hrp⟩, hlrp⟩ := hn'
  have hlm := addr_ne_of_notMem hm hml
  have hp1 : PathIn (linkPath p m s).mem (linkPath p m s).root p m := hp.link hpn m
  have hrel : s.relink .left (above p) a m = linkPath p m s := relink_eq .left m hp ha.1 hap
  have hA : (linkPath p m s).mem a = s.mem a := linkPath_mem _ _ hap
  have hM : (linkPath p m s).mem m = s.mem m := linkPath_mem _ _ hmp
  have he : rbReplace a m s = (⟨addr rm, m, rbBit cm⟩,
      (((linkPath p m s).upd m fun n => { n with parentColor := (s.mem a).parentColor }).setChild
        .left m (addr l)).setParent (addr l) m) := by
    have hpar : (s.mem a).parent = above p := by rw [hma, RbNode.parent_mk hdvd]
    have hmpar : (s.mem m).parent = a := by rw [hmm]; exact RbNode.parent_mk ha.2
    have hmcol : (s.mem m).color = rbBit cm := by rw [hmm]; exact RbNode.color_mk ha.2
    have hmr' : (s.mem m).right = addr rm := by rw [hmm]
    have hal' : (s.mem a).left = addr l := by rw [hma]; rfl
    dsimp only [rbReplace]
    simp only [hpar, hrel, hM, hA, hmpar, hmcol, hmr', if_true, setChild_mem, upd_mem, if_neg ham, hal']
  rw [he]
  refine ⟨rfl, ?_⟩
  generalize hs' : (((linkPath p m s).upd m fun n =>
    { n with parentColor := (s.mem a).parentColor }).setChild .left m (addr l)).setParent (addr l) m = s'
  have hroot : s'.root = (linkPath p m s).root := by rw [← hs']; rfl
  have hother : ∀ k, k ≠ m → k ≠ addr l → s'.mem k = (linkPath p m s).mem k := fun k hkm hkl => by
    simp only [← hs', setParent_mem, setChild_mem, upd_mem, if_neg hkm, if_neg hkl]
  have hkp : ∀ k ∈ inorder l, k ∉ pathKeys p := fun k hk hk' => hlrp k hk k (.inr hk') rfl
  refine holdsTree_plug.mpr ⟨⟨hm, ?_, ?_, ?_⟩, ?_, ?_⟩
  · simp only [← hs', setParent_mem, setChild_mem, upd_mem, if_neg hlm.symm, if_true, hM, hmm, hma]
    rfl
  · refine hL.reparent hln ha.2 hm.2 (fun k hk hkl => ?_) fun _ => ?_
    · rw [hother k (fun e => hml (e ▸ hk)) hkl, linkPath_mem _ _ (hkp k hk)]
    · simp only [← hs', setParent_mem, setChild_mem, upd_mem, if_neg hlm, if_true,
        linkPath_mem _ _ (hkp _ (addr_mem hl))]
  · rw [hroot]
    refine hp1.congr fun k hk => hother k (fun e => hmp (e ▸ hk)) fun e => ?_
    exact hkp _ (addr_mem hl) (e ▸ hk)
  · refine hR.congr fun k hk => ?_
    rw [hother k (fun e => hmr (e ▸ hk)) fun e => hlrp _ (addr_mem hl) _ (.inl hk) e.symm,
      linkPath_mem _ _ fun hk' => hrp k hk k hk' rfl]
  · exact nodup_replaced (q := []) hn

lemma HoldsTree.replace_deep (hl : l ≠ .nil) (hf : f.side = .left)
    (h : HoldsTree s (plug (f :: q ++ ⟨.right, c, a, l⟩ :: p) (.node cm .nil m rm))) :
    (rbReplace a m s).1 = ⟨addr rm, f.key, rbBit cm⟩ ∧
      HoldsTree (rbReplace a m s).2 (plug (f :: q ++ ⟨.right, c, m, l⟩ :: p) rm) := by
  obtain ⟨hpath, ⟨hm, hmm, -, hR⟩, hn⟩ := holdsTree_plug.mp h
  obtain ⟨hq, ha, hma, hL, hp⟩ := pathIn_append.mp hpath
  have hdvd := hp.dvd_above
  have hn' := nodup_replace hn
  simp only [nodup_cons, mem_cons, mem_append, not_or, nodup_append] at hn'
  obtain ⟨⟨ham, hal, har, haq, hap⟩, ⟨hml, hmr, hmq, hmp⟩, hln, ⟨hrn, ⟨hqn, hpn, hqp⟩, hrqp⟩, hlrqp⟩ := hn'
  have hp1 : PathIn (linkPath p m s).mem (linkPath p m s).root p m := hp.link hpn m
  have hrel : s.relink .left (above p) a m = linkPath p m s := relink_eq .left m hp ha.1 hap
  have hA : (linkPath p m s).mem a = s.mem a := linkPath_mem _ _ hap
  have hM : (linkPath p m s).mem m = s.mem m := linkPath_mem _ _ hmp
  -- the addresses that are written
  have hfq : f.key ∈ pathKeys (f :: q) := mem_cons_self
  have htq := topOf_mem f q m
  have hfa : f.key ≠ a := fun e => haq (e ▸ hfq)
  have hfm : f.key ≠ m := fun e => hmq (e ▸ hfq)
  have hta : topOf (f :: q) m ≠ a := fun e => haq (e ▸ htq)
  have htm : topOf (f :: q) m ≠ m := fun e => hmq (e ▸ htq)
  have hlm := addr_ne_of_notMem hm hml
  have hra := addr_ne_of_notMem ha har
  have hrm := addr_ne_of_notMem hm hmr
  obtain ⟨s2, hs2⟩ : ∃ s2, s2 = if addr rm ≠ 0 then (linkPath p m s).setParent (addr rm) f.key
    else linkPath p m s := ⟨_, rfl⟩
  have he : rbReplace a m s = (⟨addr rm, f.key, rbBit cm⟩,
      (((((s2.setChild .left f.key (addr rm)).setChild .right m (topOf (f :: q) m)).setParent
        (topOf (f :: q) m) m).upd m fun n => { n with parentColor := (s.mem a).parentColor }).setChild
        .left m (addr l)).setParent (addr l) m) := by
    have hpar : (s.mem a).parent = above p := by rw [hma, RbNode.parent_mk hdvd]
    have hmpar : (s.mem m).parent = f.key := by
      rw [hmm, above_append]
      exact RbNode.parent_mk hq.1.2
    have hmcol : (s.mem m).color = rbBit cm := by
      rw [hmm, above_append]
      exact RbNode.color_mk hq.1.2
    have hmr' : (s.mem m).right = addr rm := by rw [hmm]
    have hal' : (s.mem a).left = addr l := by rw [hma]; rfl
    have har' : (s.mem a).right = topOf (f :: q) m := by rw [hma]; rfl
    have h2A : s2.mem a = s.mem a := by
      rw [hs2]
      split_ifs
      · rw [setParent_mem, if_neg hra.symm, hA]
      · exact hA
    dsimp only [rbReplace]
    simp only [hpar, hrel, hM, hmpar, hmcol, hmr', if_neg hfa, ← hs2, setParent_mem, setChild_mem,
      upd_mem, if_neg ham, if_neg hfa.symm, if_neg hta.symm, h2A, hal', har']
  rw [he]
  refine ⟨rfl, ?_⟩
  have hroot2 : s2.root = (linkPath p m s).root := by
    rw [hs2]
    split_ifs <;> rfl
  have hmem2 : ∀ k, (rm = .nil ∨ k ≠ addr rm) → s2.mem k = (linkPath p m s).mem k := by
    intro k hk
    rw [hs2]
    split_ifs with h0
    · rw [setParent_mem, if_neg (hk.resolve_left fun e => h0 (hR.addr_eq_zero.mpr e))]
    · rfl
  generalize hs' : (((((s2.setChild .left f.key (addr rm)).setChild .right m
    (topOf (f :: q) m)).setParent (topOf (f :: q) m) m).upd m fun n =>
    { n with parentColor := (s.mem a).parentColor }).setChild .left m (addr l)).setParent (addr l) m = s'
  have hroot : s'.root = (linkPath p m s).root := by
    rw [← hs', ← hroot2]
    rfl
  -- the subtrees and the paths, region by region
  have hother : ∀ k, k ≠ m → k ≠ addr l → k ∉ pathKeys (f :: q) → s'.mem k = s2.mem k := by
    intro k hkm hkl hkq
    have hkf : k ≠ f.key := fun e => hkq (e ▸ hfq)
    have hkt : k ≠ topOf (f :: q) m := fun e => hkq (e ▸ htq)
    simp only [← hs', setParent_mem, setChild_mem, upd_mem, if_neg hkm, if_neg hkl, if_neg hkf, if_neg hkt]
  have hseg : ∀ k ∈ pathKeys (f :: q), s'.mem k =
      ((s.setChild f.side f.key (addr rm)).setParent (topOf (f :: q) m) m).mem k := by
    intro k hk
    have hkm : k ≠ m := fun e => hmq (e ▸ hk)
    have hkl : k ≠ addr l := fun e => hlrqp _ (addr_mem hl) k (.inr (.inl hk)) e.symm
    have h2 : ∀ j ∈ pathKeys (f :: q), s2.mem j = s.mem j := fun j hj => by
      rw [hmem2 j (or_iff_not_imp_left.mpr fun h0 e => hrqp _ (addr_mem h0) j (.inl hj) e.symm),
        linkPath_mem _ _ fun hj' => hqp j hj j hj' rfl]
    simp only [← hs', setParent_mem, setChild_mem, upd_mem, if_neg hkm, if_neg hkl, if_neg htm,
      h2 k hk, h2 _ hfq, h2 _ htq, hf]
  have hkp : ∀ k ∈ inorder l, k ∉ pathKeys p := fun k hk hk' => hlrqp k hk k (.inr (.inr hk')) rfl
  refine holdsTree_plug.mpr ⟨pathIn_append.mpr ⟨?_, hm, ?_, ?_, ?_⟩, ?_, ?_⟩
  · exact ((hq.link hqn (addr rm)).rebase hqn ha.2 hm.2).congr hseg
  · simp only [← hs', setParent_mem, setChild_mem, upd_mem, if_neg hlm.symm, if_true, if_neg htm.symm,
      if_neg hfm.symm, hmem2 m (.inr hrm.symm), hM, hmm, hma]
    rfl
  · have hlq : ∀ k ∈ inorder l, k ∉ pathKeys (f :: q) := fun k hk hk' =>
      hlrqp k hk k (.inr (.inl hk')) rfl
    have h2 : ∀ k ∈ inorder l, s2.mem k = s.mem k := fun k hk => by
      rw [hmem2 k (or_iff_not_imp_left.mpr fun h0 => hlrqp k hk _ (.inl (addr_mem h0))),
        linkPath_mem _ _ (hkp k hk)]
    refine hL.reparent hln ha.2 hm.2 (fun k hk hkl => ?_) fun _ => ?_
    · rw [hother k (fun e => hml (e ▸ hk)) hkl (hlq k hk), h2 k hk]
    have hlf : addr l ≠ f.key := fun e => hlq _ (addr_mem hl) (e ▸ hfq)
    have hlt : addr l ≠ topOf (f :: q) m := fun e => hlq _ (addr_mem hl) (e ▸ htq)
    simp only [← hs', setParent_mem, setChild_mem, upd_mem, if_neg hlm, if_true, if_neg hlf,
      if_neg hlt, h2 _ (addr_mem hl)]
  · rw [hroot]
    refine hp1.congr fun k hk => ?_
    rw [hother k (fun e => hmp (e ▸ hk)) (fun e => hkp _ (addr_mem hl) (e ▸ hk)) fun hk' => hqp k hk' k hk rfl]
    exact hmem2 k (or_iff_not_imp_left.mpr fun h0 e => hrqp _ (addr_mem h0) k (.inr hk) e.symm)
  · have hr : ∀ k ∈ inorder rm, s'.mem k = s2.mem k := fun k hk =>
      hother k (fun e => hmr (e ▸ hk)) (fun e => hlrqp _ (addr_mem hl) k (.inl hk) e.symm)
        fun hk' => hrqp k hk k (.inl hk') rfl
    have hrp : ∀ k ∈ inorder rm, k ∉ pathKeys p := fun k hk hk' => hrqp k hk k (.inr hk') rfl
    refine hR.reparent hrn hm.2 hq.1.2 (fun k hk hkr => ?_) fun h0 => ?_
    · rw [hr k hk, hmem2 k (.inr hkr), linkPath_mem _ _ (hrp k hk)]
    rw [hr _ (addr_mem h0), hs2, if_pos (hR.addr_ne_zero h0), setParent_mem, if_pos rfl,
      linkPath_mem _ _ (hrp _ (addr_mem h0))]
    rfl
  · exact nodup_replaced hn

end Replace

lemma rbLeftmost_spec {q : TreePath ℕ}
    (h : HoldsTree s (plug q (.node c l a r))) (hfuel : (inorder l).length < fuel) :
    rbLeftmost fuel a s = some (leftmost q c l a r).2.2.1 := by
  induction l generalizing q c a r fuel with
  | nil =>
    obtain ⟨fuel, rfl⟩ : ∃ k, fuel = k + 1 := ⟨fuel - 1, by omega⟩
    have hm := (read (d := .left) h).2.2
    rw [rbLeftmost, hm]
    exact if_neg fun h0 => h0 rfl
  | node c' l' a' r' ih =>
    obtain ⟨fuel, rfl⟩ : ∃ k, fuel = k + 1 := ⟨fuel - 1, by omega⟩
    have hm := (read (d := .left) h).2.2
    have h0 : a' ≠ 0 := (read (d := .left) (p := ⟨.left, c, a, r⟩ :: q) h).1.1
    rw [rbLeftmost, hm]
    refine (if_pos h0).trans (ih (q := ⟨.left, c, a, r⟩ :: q) h ?_)
    simp only [inorder, length_append, length_cons] at hfuel
    omega

lemma length_le_pathKeys (p : TreePath ℕ) : p.length ≤ (pathKeys p).length := by
  induction p with
  | nil => exact Nat.le_refl _
  | cons f p ih =>
    simp only [pathKeys, length_cons, length_append]
    omega

lemma length_path_le (p : TreePath ℕ) (t : RbShape) : p.length ≤ (inorder (plug p t)).length := by
  rw [(inorder_plug_perm p t).length_eq, length_append]
  have := length_le_pathKeys p
  omega

lemma rbClose_spec {hole : RbHole} (h : HoldsTree s (plug p t)) (hhole : hole = ⟨addr t, above p, rbBit c⟩)
    (ht : IsRb (.node c l a t) c n) (hp : Accepts p c n) (hfuel : p.length + 1 < fuel) :
    ∃ s', (if hole.color = rbBit .black then rbEraseColor fuel hole.child hole.parent s else some s) =
      some s' ∧ HoldsTree s' (close p c t) := by
  subst hhole
  cases ht with
  | red => exact ⟨s, rfl, h⟩
  | black _ ht => exact rbEraseColor_spec h ht hp hfuel

lemma rbErase_spec (h : HoldsTree s (plug p (.node c l a r))) (hr : IsRb (.node c l a r) c n) (hp : Accepts p c n)
    (hfuel : (inorder (plug p (.node c l a r))).length + 1 < fuel) :
    ∃ s', rbErase fuel a s = some s' ∧ HoldsTree s' (eraseAt p c l r) := by
  have hleft : (s.mem a).left = addr l := by rw [(read (d := .left) h).2.2]; rfl
  have hright : (s.mem a).right = addr r := by rw [(read (d := .left) h).2.2]; rfl
  have hlen := length_path_le p (.node c l a r)
  cases l with
  | nil =>
    obtain ⟨hhole, h'⟩ := unlink (d := .left) h
    rw [rbErase, rbTake, hleft, hright]
    exact rbClose_spec h' hhole hr hp (by omega)
  | node cl ll kl lr =>
    have hl0 : addr (.node cl ll kl lr) ≠ 0 :=
      (read (d := .left) (p := ⟨.left, c, a, r⟩ :: p) h).1.1
    cases r with
    | nil =>
      obtain ⟨hhole, h'⟩ := unlink (d := .right) h
      rw [rbErase, rbTake, hleft, hright, if_neg hl0]
      exact rbClose_spec h' hhole hr.swap hp (by omega)
    | node cr rl k rr =>
      have hr0 : addr (.node cr rl k rr) ≠ 0 :=
        (read (d := .left) (p := ⟨.right, c, a, .node cl ll kl lr⟩ :: p) h).1.1
      have hnext : rbLeftmost fuel (addr (.node cr rl k rr)) s =
          some (leftmost [] cr rl k rr).2.2.1 := by
        have happ := leftmost_append [] (⟨.right, c, a, .node cl ll kl lr⟩ :: p) cr rl k rr
        rw [nil_append] at happ
        rw [addr, rbLeftmost_spec (q := ⟨.right, c, a, .node cl ll kl lr⟩ :: p) h ?_, happ]
        rw [(inorder_plug_perm p _).length_eq] at hfuel
        simp only [inorder, length_append, length_cons] at hfuel
        omega
      rw [rbErase, rbTake, hleft, hright, if_neg hl0, if_neg hr0, hnext]
      -- the memory, opened at the next node
      have hopen : plug ((leftmost [] cr rl k rr).1 ++ ⟨.right, c, a, .node cl ll kl lr⟩ :: p)
          (.node (leftmost [] cr rl k rr).2.1 .nil (leftmost [] cr rl k rr).2.2.1 (leftmost [] cr rl k rr).2.2.2) =
          plug p (.node c (.node cl ll kl lr) a (.node cr rl k rr)) := by
        rw [plug_append, plug_leftmost]
        rfl
      have hpath := length_path_le ((leftmost [] cr rl k rr).1 ++ ⟨.right, c, a, .node cl ll kl lr⟩ :: p)
        (.node (leftmost [] cr rl k rr).2.1 .nil (leftmost [] cr rl k rr).2.2.1 (leftmost [] cr rl k rr).2.2.2)
      have hside := leftmost_side (q := []) cr rl k rr (by simp)
      obtain ⟨m, hrb, hacc⟩ := leftmost_accepts (leftmost [] cr rl k rr).2.2.1 hr hp
      rw [hopen] at hpath
      have h' := h
      rw [← hopen] at h'
      show ∃ s', _ ∧ HoldsTree s' (close ..)
      generalize leftmost [] cr rl k rr = x at h' hpath hside hrb hacc ⊢
      have hlen' : x.1.length + p.length + 2 < fuel := by
        rw [length_append, length_cons] at hpath
        exact Nat.lt_of_le_of_lt (by omega) hfuel
      obtain ⟨_ | ⟨f, q⟩, cm, b, rm⟩ := x
      · obtain ⟨hhole, h''⟩ := replace_child (l := .node cl ll kl lr) (by rintro ⟨⟩) h'
        refine rbClose_spec h'' hhole hrb hacc ?_
        simp only [nil_append, length_cons]
        simp at hlen'
        omega
      obtain ⟨hhole, h''⟩ := replace_deep (l := .node cl ll kl lr) (by rintro ⟨⟩) (hside f mem_cons_self) h'
      refine rbClose_spec h'' hhole hrb hacc ?_
      simp only [cons_append, length_append, length_cons] at hlen' ⊢
      omega

end Obelisk
