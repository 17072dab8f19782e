import Mathlib.Data.List.Nodup
import Obelisk.RbTree.Model

/-!
# Red-black tree: the tree in memory

The nodes in memory hold a coloured tree of addresses.
-/

namespace Obelisk

open KLib KLib.ColorTree List

variable {a hole : ℕ} {s : RbState} {p : TreePath ℕ} {m : ℕ → RbNode}

abbrev RbShape := ColorTree ℕ

def addr : RbShape → ℕ
  | .nil => 0
  | .node _ _ a _ => a

def above : TreePath ℕ → ℕ
  | [] => 0
  | f :: _ => f.key

def IsNode (a : ℕ) : Prop := a ≠ 0 ∧ 4 ∣ a

def TreeIn (m : ℕ → RbNode) : ℕ → RbShape → Prop
  | _, .nil => True
  | parent, .node c l a r =>
    IsNode a ∧ m a = ⟨parent + rbBit c, addr l, addr r⟩ ∧ TreeIn m a l ∧ TreeIn m a r

def PathIn (m : ℕ → RbNode) (root : ℕ) : TreePath ℕ → ℕ → Prop
  | [], hole => root = hole
  | f :: p, hole =>
    IsNode f.key ∧ m f.key = ⟨above p + rbBit f.color, (f.side.pick hole (addr f.sib)).1,
      (f.side.pick hole (addr f.sib)).2⟩ ∧ TreeIn m f.key f.sib ∧ PathIn m root p f.key

def pathKeys : TreePath ℕ → List ℕ
  | [] => []
  | f :: p => f.key :: (inorder f.sib ++ pathKeys p)

/-- Memory holds the tree `t`. -/
structure HoldsTree (s : RbState) (t : RbShape) : Prop where
  root : s.root = addr t
  tree : TreeIn s.mem 0 t
  nodup : (inorder t).Nodup

/-! ## The word of a node -/

lemma or_of_lt_four {x p : ℕ} (hx : x < 4) (hp : 4 ∣ p) : x ||| p = p + x := by
  obtain ⟨k, rfl⟩ := hp
  rw [Nat.or_comm]
  exact (Nat.two_pow_add_eq_or_of_lt (i := 2) hx k).symm

lemma rbBit_lt (c : Color) : rbBit c < 2 := by
  cases c <;> decide

section Word

variable {p q l r : ℕ} {c c' : Color}

section

variable (hp : 4 ∣ p)
include hp

lemma RbNode.parent_mk : (RbNode.mk (p + rbBit c) l r).parent = p := by
  have := rbBit_lt c
  dsimp only [RbNode.parent]
  omega

lemma RbNode.color_mk : (RbNode.mk (p + rbBit c) l r).color = rbBit c := by
  have := rbBit_lt c
  dsimp only [RbNode.color]
  omega

lemma RbNode.isRed_mk : (RbNode.mk (p + rbBit c) l r).isRed = true ↔ c = .red := by
  rw [RbNode.isRed, RbNode.color_mk hp]
  cases c <;> decide

lemma RbNode.setParent_mk (hq : 4 ∣ q) :
    (RbNode.mk (p + rbBit c) l r).setParent q = ⟨q + rbBit c, l, r⟩ := by
  have := rbBit_lt c
  have h : (p + rbBit c) % 4 = rbBit c := by omega
  rw [RbNode.setParent, h, or_of_lt_four (by omega) hq]

lemma RbNode.setColor_mk :
    (RbNode.mk (p + rbBit c) l r).setColor (rbBit c') = ⟨p + rbBit c', l, r⟩ := by
  have := rbBit_lt c
  have := rbBit_lt c'
  have h : (p + rbBit c) / 2 * 2 = p := by omega
  rw [RbNode.setColor, h, Nat.or_comm, or_of_lt_four (by omega) hp]

end

end Word

lemma RbNode.child_pick (w x y : ℕ) (d : Side) :
    (RbNode.mk w (d.pick x y).1 (d.pick x y).2).child d = x := by
  cases d <;> rfl

lemma RbNode.child_flip_pick (w x y : ℕ) (d : Side) :
    (RbNode.mk w (d.pick x y).1 (d.pick x y).2).child d.flip = y := by
  cases d <;> rfl

lemma RbNode.setChild_pick (w x y z : ℕ) (d : Side) : (RbNode.mk w (d.pick x y).1 (d.pick x y).2).setChild d z =
      ⟨w, (d.pick z y).1, (d.pick z y).2⟩ := by
  cases d <;> rfl

lemma RbNode.setChild_flip_pick (w x y z : ℕ) (d : Side) :
    (RbNode.mk w (d.pick x y).1 (d.pick x y).2).setChild d.flip z =
      ⟨w, (d.pick x z).1, (d.pick x z).2⟩ := by
  cases d <;> rfl

lemma addr_fill (f : Frame ℕ) (t : RbShape) : addr (f.fill t) = f.key := rfl

@[simp] lemma addr_branch (d : Side) (c : Color) (t : RbShape) (a : ℕ) (u : RbShape) :
    addr (branch d c t a u) = a := rfl

lemma treeIn_branch {parent : ℕ} {d : Side} {c : Color} {t u : RbShape} :
    TreeIn m parent (branch d c t a u) ↔ IsNode a ∧ m a = ⟨parent + rbBit c, (d.pick (addr t) (addr u)).1,
      (d.pick (addr t) (addr u)).2⟩ ∧ TreeIn m a t ∧ TreeIn m a u := by
  cases d
  · rfl
  simp only [branch, TreeIn, Side.pick]
  tauto

lemma treeIn_plug {root : ℕ} {t : RbShape} : (root = addr (plug p t) ∧ TreeIn m 0 (plug p t)) ↔
      PathIn m root p (addr t) ∧ TreeIn m (above p) t := by
  induction p generalizing t with
  | nil => rfl
  | cons f p ih =>
    rw [plug, ih, addr_fill, Frame.fill, treeIn_branch, PathIn, above]
    tauto

lemma inorder_plug_perm (p : TreePath ℕ) (t : RbShape) :
    (inorder (plug p t)).Perm (inorder t ++ pathKeys p) := by
  induction p generalizing t with
  | nil => rw [plug, pathKeys, append_nil]
  | cons f p ih =>
    refine (ih _).trans (perm_iff_count.mpr fun x => ?_)
    obtain ⟨_ | _, c, a, sib⟩ := f <;>
      simp only [Frame.fill, branch, Side.pick, inorder, pathKeys, count_append, count_cons] <;>
      omega

lemma holdsTree_plug {t : RbShape} :
    HoldsTree s (plug p t) ↔ PathIn s.mem s.root p (addr t) ∧ TreeIn s.mem (above p) t ∧
      (inorder t ++ pathKeys p).Nodup := by
  rw [← (inorder_plug_perm p t).nodup_iff, ← and_assoc, ← treeIn_plug]
  exact ⟨fun h => ⟨⟨h.root, h.tree⟩, h.nodup⟩, fun h => ⟨h.1.1, h.1.2, h.2⟩⟩

lemma inorder_branch_perm (d : Side) (c : Color) (t : RbShape) (a : ℕ) (u : RbShape) :
    (inorder (branch d c t a u)).Perm (a :: (inorder t ++ inorder u)) := by
  refine perm_iff_count.mpr fun x => ?_
  cases d <;> simp only [branch, Side.pick, inorder, count_append, count_cons] <;> omega

/-! ## Memory that agrees -/

section Agree

variable {m m' : ℕ → RbNode} {t : RbShape} {p : TreePath ℕ} {parent parent' root hole : ℕ}

lemma TreeIn.congr (h : TreeIn m parent t) (hm : ∀ k ∈ inorder t, m' k = m k) :
    TreeIn m' parent t := by
  induction t generalizing parent with
  | nil => trivial
  | node c l a r ihl ihr =>
    simp only [inorder, mem_append, mem_cons] at hm
    obtain ⟨hn, ha, hl, hr⟩ := h
    exact ⟨hn, by rw [hm a (.inr (.inl rfl)), ha], ihl hl fun k hk => hm k (.inl hk),
      ihr hr fun k hk => hm k (.inr (.inr hk))⟩

lemma PathIn.congr (h : PathIn m root p hole) (hm : ∀ k ∈ pathKeys p, m' k = m k) :
    PathIn m' root p hole := by
  induction p generalizing hole with
  | nil => exact h
  | cons f p ih =>
    simp only [pathKeys, mem_append, mem_cons] at hm
    obtain ⟨hn, hf, hs, hp⟩ := h
    exact ⟨hn, by rw [hm f.key (.inl rfl), hf], hs.congr fun k hk => hm k (.inr (.inl hk)),
      ih hp fun k hk => hm k (.inr (.inr hk))⟩

lemma PathIn.dvd_above (h : PathIn m root p hole) : 4 ∣ above p := by
  cases p with
  | nil => exact ⟨0, rfl⟩
  | cons f p => exact h.1.2

lemma TreeIn.addr_ne_zero (h : TreeIn m parent t) (ht : t ≠ .nil) : addr t ≠ 0 := by
  cases t with
  | nil => exact absurd rfl ht
  | node c l a r => exact h.1.1

lemma addr_mem {t : RbShape} (ht : t ≠ .nil) : addr t ∈ inorder t := by
  cases t with
  | nil => exact absurd rfl ht
  | node c l a r => simp [addr, inorder]

lemma addr_ne_of_notMem (ha : IsNode a) (h : a ∉ inorder t) : addr t ≠ a := by
  rintro rfl
  by_cases h0 : t = .nil
  · exact ha.1 (by rw [h0]; rfl)
  · exact h (addr_mem h0)

lemma TreeIn.addr_eq_zero (h : TreeIn m parent t) : addr t = 0 ↔ t = .nil := by
  cases t with
  | nil => exact iff_of_true rfl rfl
  | node c l a r => exact iff_of_false h.1.1 nofun

lemma TreeIn.reparent (h : TreeIn m parent t) (hn : (inorder t).Nodup) (hp : 4 ∣ parent)
    (hp' : 4 ∣ parent') (hm : ∀ k ∈ inorder t, k ≠ addr t → m' k = m k)
    (ht : t ≠ .nil → m' (addr t) = (m (addr t)).setParent parent') : TreeIn m' parent' t := by
  cases t with
  | nil => trivial
  | node c l a r =>
    simp only [inorder, mem_append, mem_cons, addr] at hm ht
    rw [inorder, perm_middle.nodup_iff, nodup_cons, mem_append] at hn
    obtain ⟨ha, hma, hl, hr⟩ := h
    refine ⟨ha, ?_, hl.congr fun k hk => ?_, hr.congr fun k hk => ?_⟩
    · rw [ht (by rintro ⟨⟩), hma, RbNode.setParent_mk hp hp']
    · exact hm k (.inl hk) fun e => hn.1 (.inl (e ▸ hk))
    · exact hm k (.inr (.inr hk)) fun e => hn.1 (.inr (e ▸ hk))

end Agree

@[simp] lemma upd_mem (s : RbState) (a b : ℕ) (f : RbNode → RbNode) :
    (s.upd a f).mem b = if b = a then f (s.mem a) else s.mem b :=
  Function.update_apply ..

@[simp] lemma upd_root (s : RbState) (a : ℕ) (f : RbNode → RbNode) : (s.upd a f).root = s.root := rfl

def linkPath (p : TreePath ℕ) (x : ℕ) (s : RbState) : RbState :=
  match p with
  | [] => { s with root := x }
  | f :: _ => s.setChild f.side f.key x

lemma linkPath_mem {k : ℕ} (x : ℕ) (s : RbState) (hk : k ∉ pathKeys p) :
    (linkPath p x s).mem k = s.mem k := by
  cases p with
  | nil => rfl
  | cons f p =>
    rw [pathKeys, mem_cons, not_or] at hk
    rw [linkPath, RbState.setChild, upd_mem, if_neg hk.1]

lemma PathIn.link (h : PathIn s.mem s.root p hole) (hn : (pathKeys p).Nodup) (x : ℕ) :
    PathIn (linkPath p x s).mem (linkPath p x s).root p x := by
  cases p with
  | nil => rfl
  | cons f p =>
    rw [pathKeys, nodup_cons, mem_append, not_or] at hn
    obtain ⟨hk, hf, hs, hp⟩ := h
    have hm : ∀ k, k ≠ f.key → (linkPath (f :: p) x s).mem k = s.mem k := fun k hk => by
      rw [linkPath, RbState.setChild, upd_mem, if_neg hk]
    refine ⟨hk, ?_, hs.congr fun k hk => hm k ?_, hp.congr fun k hk => hm k ?_⟩
    · rw [linkPath, RbState.setChild, upd_mem, if_pos rfl, hf, RbNode.setChild_pick]
    · exact fun e => hn.1.1 (e ▸ hk)
    · exact fun e => hn.1.2 (e ▸ hk)

lemma relink_eq (d : Side) (x : ℕ) (h : PathIn s.mem s.root p hole) (h0 : hole ≠ 0) (hh : hole ∉ pathKeys p) :
    s.relink d (above p) hole x = linkPath p x s := by
  cases p with
  | nil => rfl
  | cons f p =>
    obtain ⟨hk, hf, hs, hp⟩ := h
    simp only [pathKeys, mem_cons, mem_append, not_or] at hh
    have hsib : hole ≠ addr f.sib := by
      intro e
      by_cases ht : f.sib = .nil
      · rw [ht] at e
        exact h0 e
      · exact hh.2.1 (e ▸ addr_mem ht)
    rw [RbState.relink, above, if_pos hk.1, hf, linkPath]
    obtain ⟨side, c, k, sib⟩ := f
    cases d <;> cases side <;> simp_all [RbNode.child, Side.pick, Side.flip]

/-! ## Painting and rotating -/

section Spec

variable {s : RbState} {p : TreePath ℕ} {d : Side} {c c' : Color} {a b : ℕ} {x y z : RbShape}

section

variable (h : HoldsTree s (plug p (branch d c x a y)))
include h

lemma HoldsTree.read : IsNode a ∧ 4 ∣ above p ∧
      s.mem a = ⟨above p + rbBit c, (d.pick (addr x) (addr y)).1, (d.pick (addr x) (addr y)).2⟩ := by
  obtain ⟨hp, ht, -⟩ := holdsTree_plug.mp h
  obtain ⟨ha, hm, -, -⟩ := treeIn_branch.mp ht
  exact ⟨ha, hp.dvd_above, hm⟩

lemma HoldsTree.child_eq : (s.mem a).child d = addr x := by
  rw [h.read.2.2, RbNode.child_pick]

lemma HoldsTree.child_flip_eq : (s.mem a).child d.flip = addr y := by
  rw [h.read.2.2, RbNode.child_flip_pick]

lemma HoldsTree.setColor (c' : Color) :
    HoldsTree (s.setColor a (rbBit c')) (plug p (branch d c' x a y)) := by
  obtain ⟨hp, ht, hn⟩ := holdsTree_plug.mp h
  obtain ⟨ha, hm, hx, hy⟩ := treeIn_branch.mp ht
  have hperm := fun c => (inorder_branch_perm d c x a y).append_right (pathKeys p)
  have hn' := (hperm c).nodup_iff.mp hn
  simp only [cons_append, nodup_cons, mem_append, not_or] at hn'
  have hne : ∀ k, k ≠ a → (s.setColor a (rbBit c')).mem k = s.mem k := fun k hk => by
    rw [RbState.setColor, upd_mem, if_neg hk]
  refine holdsTree_plug.mpr ⟨hp.congr fun k hk => hne k ?_, treeIn_branch.mpr ⟨ha, ?_,
    hx.congr fun k hk => hne k ?_, hy.congr fun k hk => hne k ?_⟩, ?_⟩
  · exact fun e => hn'.1.2 (e ▸ hk)
  · rw [RbState.setColor, upd_mem, if_pos rfl, hm, RbNode.setColor_mk hp.dvd_above]
  · exact fun e => hn'.1.1.1 (e ▸ hk)
  · exact fun e => hn'.1.1.2 (e ▸ hk)
  · exact (hperm c').nodup_iff.mpr ((hperm c).nodup_iff.mp hn)

end

section

variable (h : HoldsTree s (plug p x))
include h

lemma HoldsTree.isRed_iff : (addr x ≠ 0 ∧ (s.mem (addr x)).isRed = true) ↔ x.isRed = true := by
  cases x with
  | nil => simp [addr, isRed]
  | node c l a r =>
    obtain ⟨ha, hd, hm⟩ := HoldsTree.read (d := .left) h
    rw [addr, hm, RbNode.isRed_mk hd]
    cases c <;> simp [ha.1, isRed]

lemma HoldsTree.blackOrNull_eq : s.blackOrNull (addr x) = !x.isRed := by
  have hr := h.isRed_iff
  rw [RbState.blackOrNull, RbNode.isBlack]
  by_cases h0 : addr x = 0 <;> cases hx : x.isRed <;> simp_all

lemma HoldsTree.blacken (hx : x ≠ .nil) :
    HoldsTree (s.setColor (addr x) (rbBit .black)) (plug p x.blacken) := by
  cases x with
  | nil => exact absurd rfl hx
  | node c l a r => exact HoldsTree.setColor (d := .left) h _

lemma HoldsTree.redden (hx : x ≠ .nil) :
    HoldsTree (s.setColor (addr x) (rbBit .red)) (plug p x.redden) := by
  cases x with
  | nil => exact absurd rfl hx
  | node c l a r => exact HoldsTree.setColor (d := .left) h _

end

lemma HoldsTree.addr_ne (h : HoldsTree s (plug p (branch d c x a y))) (hxy : x ≠ .nil ∨ y ≠ .nil) :
    addr x ≠ addr y := by
  obtain ⟨-, ht, hn⟩ := holdsTree_plug.mp h
  obtain ⟨-, -, hx, hy⟩ := treeIn_branch.mp ht
  have hn' := ((inorder_branch_perm d c x a y).append_right (pathKeys p)).nodup_iff.mp hn
  simp only [cons_append, nodup_cons, nodup_append] at hn'
  intro e
  by_cases hx0 : x = .nil
  · have hy0 := hxy.resolve_left (absurd hx0)
    rw [hx.addr_eq_zero.mpr hx0] at e
    exact hy0 (hy.addr_eq_zero.mp e.symm)
  have hy0 : y ≠ .nil := fun hy0 => hx.addr_ne_zero hx0 (e.trans (hy.addr_eq_zero.mpr hy0))
  exact hn'.2.1.2.2 _ (addr_mem hx0) _ (addr_mem hy0) e

lemma HoldsTree.side_eq (h : HoldsTree s (plug p (branch d c x a y))) (hxy : x ≠ .nil ∨ y ≠ .nil) :
    (if addr x = (s.mem a).left then Side.left else Side.right) = d := by
  rw [h.read.2.2]
  cases d with
  | left => exact if_pos rfl
  | right => exact if_neg (h.addr_ne hxy)

lemma nodup_rotate (h : (inorder (branch d c x a (branch d c' y b z)) ++ pathKeys p).Nodup) :
    (a :: b :: (inorder x ++ (inorder y ++ (inorder z ++ pathKeys p)))).Nodup := by
  refine (List.Perm.nodup_iff (perm_iff_count.mpr fun k => ?_)).mp h
  cases d <;>
    simp only [branch, Side.pick, inorder, count_append, count_cons] <;> omega

def rbRotating (d : Side) (a b : ℕ) (y : RbShape) (q : ℕ) (s : RbState) : RbState :=
  let s := s.setChild d.flip a (addr y)
  let s := if addr y ≠ 0 then s.setParent (addr y) a else s
  (s.setChild d b a).setParent b q

lemma rbRotating_root (d : Side) (a b : ℕ) (y : RbShape) (q : ℕ) (s : RbState) :
    (rbRotating d a b y q s).root = s.root := by
  by_cases h0 : addr y = 0 <;> simp [rbRotating, RbState.setChild, RbState.setParent, h0]

lemma HoldsTree.rotate (h : HoldsTree s (plug p (branch d c x a (branch d c' y b z)))) :
    HoldsTree (rbRotate d a s) (plug p (branch d c' (branch d c x a y) b z)) := by
  obtain ⟨hp, ht, hn⟩ := holdsTree_plug.mp h
  obtain ⟨ha, hma, hx, hbz⟩ := treeIn_branch.mp ht
  obtain ⟨hb, hmb, hy, hz⟩ := treeIn_branch.mp hbz
  rw [addr_branch] at hma
  have hn' := nodup_rotate hn
  have hdvd := hp.dvd_above
  simp only [nodup_cons, mem_cons, mem_append, not_or] at hn'
  obtain ⟨⟨hab, hax, hay, haz, hap⟩, ⟨hbx, hby, hbz', hbp⟩, hnd⟩ := hn'
  simp only [nodup_append, mem_append] at hnd
  obtain ⟨hxn, ⟨hyn, ⟨hzn, hpn, hzp⟩, hyzp⟩, hxyzp⟩ := hnd
  have hya := addr_ne_of_notMem ha hay
  have hyb := addr_ne_of_notMem hb hby
  have hother : ∀ k, k ≠ a → k ≠ b → (y = .nil ∨ k ≠ addr y) →
      (rbRotating d a b y (above p) s).mem k = s.mem k := by
    intro k hka hkb hky
    rcases hky with rfl | hky
    · simp [rbRotating, RbState.setChild, RbState.setParent, addr, hka, hkb]
    by_cases h0 : addr y = 0 <;>
      simp [rbRotating, RbState.setChild, RbState.setParent, h0, hka, hkb, hky]
  have hA : (rbRotating d a b y (above p) s).mem a =
      ⟨above p + rbBit c, (d.pick (addr x) (addr y)).1, (d.pick (addr x) (addr y)).2⟩ := by
    by_cases h0 : addr y = 0 <;>
      simp [rbRotating, RbState.setChild, RbState.setParent, h0, hab, hya.symm, hma, RbNode.setChild_flip_pick]
  have hB : (rbRotating d a b y (above p) s).mem b =
      ⟨above p + rbBit c', (d.pick a (addr z)).1, (d.pick a (addr z)).2⟩ := by
    by_cases h0 : addr y = 0 <;>
      simp [rbRotating, RbState.setChild, RbState.setParent, h0, Ne.symm hab, hyb.symm, hmb,
        RbNode.setChild_pick, RbNode.setParent_mk ha.2 hdvd]
  have hY : y ≠ .nil → (rbRotating d a b y (above p) s).mem (addr y) =
      (s.mem (addr y)).setParent a := fun h0 => by
    simp [rbRotating, RbState.setChild, RbState.setParent, hy.addr_ne_zero h0, hya, hyb]
  -- the rotated nodes are not on the path
  have hpk : ∀ k ∈ pathKeys p, k ≠ a ∧ k ≠ b ∧ (y = .nil ∨ k ≠ addr y) := fun k hk =>
    ⟨fun e => hap (e ▸ hk), fun e => hbp (e ▸ hk), or_iff_not_imp_left.mpr fun h0 e =>
      hyzp _ (addr_mem h0) _ (.inr hk) e.symm⟩
  have hp4 : PathIn (rbRotating d a b y (above p) s).mem (rbRotating d a b y (above p) s).root p a := by
    rw [rbRotating_root]
    exact hp.congr fun k hk => hother k (hpk k hk).1 (hpk k hk).2.1 (hpk k hk).2.2
  have he : rbRotate d a s = (linkPath p b (rbRotating d a b y (above p) s)).setParent a b := by
    rw [← relink_eq d b hp4 ha.1 hap]
    dsimp only [rbRotate]
    rw [hma, RbNode.parent_mk hdvd, RbNode.child_flip_pick, hmb, RbNode.child_pick]
    rfl
  -- the final memory
  have hfin : ∀ k, k ≠ a → k ∉ pathKeys p → (rbRotate d a s).mem k =
      (rbRotating d a b y (above p) s).mem k := fun k hka hkp => by
    rw [he, RbState.setParent, upd_mem, if_neg hka, linkPath_mem _ _ hkp]
  refine holdsTree_plug.mpr ⟨?_, treeIn_branch.mpr ⟨hb, ?_, treeIn_branch.mpr ⟨ha, ?_, ?_, ?_⟩, ?_⟩, ?_⟩
  · rw [he]
    exact (hp4.link hpn b).congr fun k hk => by
      rw [RbState.setParent, upd_mem, if_neg (hpk k hk).1]
  · rw [hfin b (Ne.symm hab) hbp, hB]
    rfl
  · rw [he, RbState.setParent, upd_mem, if_pos rfl, linkPath_mem _ _ hap, hA, RbNode.setParent_mk hdvd hb.2]
  · refine hx.congr fun k hk => ?_
    rw [hfin k (fun e => hax (e ▸ hk)) fun hk' => hxyzp k hk k (.inr (.inr hk')) rfl]
    exact hother k (fun e => hax (e ▸ hk)) (fun e => hbx (e ▸ hk)) (or_iff_not_imp_left.mpr
      fun h0 => hxyzp k hk _ (.inl (addr_mem h0)))
  · have hkp : ∀ k ∈ inorder y, k ∉ pathKeys p := fun k hk hk' => hyzp k hk k (.inr hk') rfl
    refine hy.reparent hyn hb.2 ha.2 (fun k hk hky => ?_) fun h0 => ?_
    · rw [hfin k (fun e => hay (e ▸ hk)) (hkp k hk)]
      exact hother k (fun e => hay (e ▸ hk)) (fun e => hby (e ▸ hk)) (.inr hky)
    · rw [hfin _ hya (hkp _ (addr_mem h0)), hY h0]
  · refine hz.congr fun k hk => ?_
    rw [hfin k (fun e => haz (e ▸ hk)) fun hk' => hzp k hk k hk' rfl]
    exact hother k (fun e => haz (e ▸ hk)) (fun e => hbz' (e ▸ hk)) (or_iff_not_imp_left.mpr
      fun h0 e => hyzp _ (addr_mem h0) k (.inl hk) e.symm)
  refine (List.Perm.nodup_iff (perm_iff_count.mpr fun k => ?_)).mp hn
  cases d <;>
    simp only [branch, Side.pick, inorder, count_append, count_cons] <;> omega

end Spec

end Obelisk
