import Mathlib.Data.List.Sort
import Obelisk.RbTree.Erase

/-!
# Red-black tree: sequences of insertions and removals

A caller inserts by descending to a `NULL` link, linking the node and repairing the colours.
-/

namespace Obelisk

open KLib KLib.ColorTree List

variable {nodes : List ℕ} {a fuel : ℕ}

/-- The loop of a caller that looks for the link of a new node; `left` says on which side of a node it
goes on. The parent and the link are returned. -/
def rbDescend (left : ℕ → Bool) : ℕ → ℕ → ℕ → Option Side → RbState → Option (ℕ × Option Side)
  | 0, _, _, _, _ => none
  | fuel + 1, cur, parent, link, s =>
    if cur ≠ 0 then
      let d : Side := if left cur then .left else .right
      rbDescend left fuel ((s.mem cur).child d) cur (some d) s
    else some (parent, link)

def rbInsert (left : ℕ → Bool) (fuel node : ℕ) (s : RbState) : Option RbState :=
  (rbDescend left fuel s.root 0 none s).bind fun r =>
    rbInsertColor fuel node (rbLinkNode node r.1 r.2 s)

variable {s : RbState} {left : ℕ → Bool}

lemma rbDescend_spec {t : RbShape} {p : TreePath ℕ} {fuel : ℕ} (h : HoldsTree s (plug p t))
    (hfuel : (inorder t).length < fuel) :
    rbDescend left fuel (addr t) (above p) (linkSide p) s =
      some (above (descend left p t), linkSide (descend left p t)) := by
  induction t generalizing p fuel with
  | nil =>
    obtain ⟨fuel, rfl⟩ : ∃ k, fuel = k + 1 := ⟨fuel - 1, by omega⟩
    exact if_neg fun h0 => h0 rfl
  | node c l k r ihl ihr =>
    obtain ⟨fuel, rfl⟩ : ∃ k, fuel = k + 1 := ⟨fuel - 1, by omega⟩
    have hk : k ≠ 0 := (HoldsTree.read (d := .left) h).1.1
    simp only [inorder, length_append, length_cons] at hfuel
    rw [rbDescend, addr, if_pos hk, descend]
    cases hleft : left k with
    | true =>
      have hchild := HoldsTree.child_eq (d := .left) h
      simp only [↓reduceIte, hchild]
      exact ihl (p := ⟨.left, c, k, r⟩ :: p) h (by omega)
    | false =>
      have hchild := HoldsTree.child_eq (d := .right) h
      simp only [Bool.false_eq_true, ↓reduceIte, hchild]
      exact ihr (p := ⟨.right, c, k, l⟩ :: p) h (by omega)

def IsRbTree (s : RbState) (nodes : List ℕ) : Prop :=
  ∃ t n, HoldsTree s t ∧ IsRb t .black n ∧ inorder t = nodes

lemma IsRbTree.empty (mem : ℕ → RbNode) : IsRbTree (rbRoot mem) [] :=
  ⟨.nil, 0, ⟨rfl, trivial, nodup_nil⟩, .nil, rfl⟩

lemma IsRbTree.insert (h : IsRbTree s nodes) (ha : IsNode a)
    (hnew : a ∉ nodes) (hord : nodes.Pairwise fun x y => left x → left y)
    (hfuel : nodes.length + 1 < fuel) :
    ∃ s' b e, rbInsert left fuel a s = some s' ∧ IsRbTree s' (b ++ a :: e) ∧ nodes = b ++ e ∧
      (∀ x ∈ b, ¬left x) ∧ ∀ x ∈ e, left x := by
  obtain ⟨t, n, ht, hrb, rfl⟩ := h
  have hplug : plug (descend left [] t) .nil = t := plug_descend left [] t
  have hdesc := @rbDescend_spec s left t [] fuel ht (Nat.lt_of_succ_lt hfuel)
  have hlink : HoldsTree _ (plug (descend left [] t) (.node .red .nil a .nil)) :=
    HoldsTree.link (by rwa [hplug]) ha (by rwa [hplug])
  have hlen : (descend left [] t).length ≤ (inorder t).length := by
    have := length_path_le (descend left [] t) .nil
    rwa [hplug] at this
  have hlen' : (descend left [] t).length + 1 < fuel := by omega
  obtain ⟨s', hs', hfix⟩ := rbInsertColor_spec hlink (.red .nil .nil) (descend_accepts left hrb .root) hlen'
  obtain ⟨b, e, hb, he, hte, hin⟩ := insert_inorder a hord
  obtain ⟨m, hm⟩ := insert_isRb left a hrb
  refine ⟨s', b, e, ?_, ⟨_, m, hfix, hm, hin⟩, hte, hb, he⟩
  rw [rbInsert, ht.root]
  show (rbDescend left fuel (addr t) (above []) (linkSide []) s).bind _ = _
  rwa [hdesc]

lemma IsRbTree.erase (h : IsRbTree s nodes) (ha : a ∈ nodes)
    (hfuel : nodes.length + 1 < fuel) :
    ∃ s', rbErase fuel a s = some s' ∧ IsRbTree s' (nodes.erase a) := by
  obtain ⟨t, n, ht, hrb, rfl⟩ := h
  obtain ⟨p, c, l, r, m, hplug, hnode, hp⟩ := exists_plug_of_mem hrb .root ha
  rw [plug] at hplug
  subst hplug
  obtain ⟨s', hs', hh⟩ := rbErase_spec ht hnode hp hfuel
  obtain ⟨k, hk⟩ := eraseAt_isRb hnode hp
  obtain ⟨before, after, hin, hout⟩ := eraseAt_inorder p c l r a
  have hnd := ht.nodup
  rw [hin, perm_middle.nodup_iff, nodup_cons, mem_append, not_or] at hnd
  refine ⟨s', hs', _, k, hh, hk, ?_⟩
  rw [hout, hin, erase_append_right _ hnd.1.1, erase_cons_head]

/-- A call on the tree. -/
inductive RbOp
  | insert (a : ℕ)
  | erase (a : ℕ)

section Runs

variable (lt : ℕ → ℕ → Prop) [DecidableRel lt]

def RbOp.exec (fuel : ℕ) : RbOp → RbState → Option RbState
  | .insert a, s => rbInsert (fun k => lt a k) fuel a s
  | .erase a, s => rbErase fuel a s

def rbRun (fuel : ℕ) : List RbOp → RbState → Option RbState
  | [], s => some s
  | op :: ops, s => (op.exec lt fuel s).bind (rbRun fuel ops)

/-- What an operation does to the nodes in order: the new node is inserted at its place, and the
removed one is removed. -/
def RbOp.spec : RbOp → List ℕ → List ℕ
  | .insert a, nodes => nodes.orderedInsert lt a
  | .erase a, nodes => nodes.erase a

def RbOp.Valid : RbOp → List ℕ → Prop
  | .insert a, nodes => IsNode a ∧ a ∉ nodes
  | .erase a, nodes => a ∈ nodes

def RbValid : List RbOp → List ℕ → Prop
  | [], _ => True
  | op :: ops, nodes => op.Valid nodes ∧ RbValid ops (op.spec lt nodes)

def rbSpec (ops : List RbOp) (nodes : List ℕ) : List ℕ := ops.foldl (fun l op => op.spec lt l) nodes

variable {lt}

lemma orderedInsert_of_split {b e : List ℕ} (hb : ∀ x ∈ b, ¬lt a x) (he : ∀ x ∈ e, lt a x) :
    (b ++ e).orderedInsert lt a = b ++ a :: e := by
  induction b with
  | nil =>
    cases e with
    | nil => rfl
    | cons x e => exact if_pos (he x mem_cons_self)
  | cons x b ih =>
    rw [cons_append, orderedInsert_cons, if_neg (hb x mem_cons_self), ih fun y hy => hb y (mem_cons_of_mem _ hy)]
    rfl

variable [IsStrictTotalOrder ℕ lt]

lemma RbOp.exec_spec {op : RbOp} {s : RbState} {nodes : List ℕ} {fuel : ℕ} (h : IsRbTree s nodes)
    (hord : nodes.Pairwise lt) (hv : op.Valid nodes) (hfuel : nodes.length + 1 < fuel) :
    ∃ s', op.exec lt fuel s = some s' ∧ IsRbTree s' (op.spec lt nodes) ∧
      (op.spec lt nodes).Pairwise lt ∧ (op.spec lt nodes).length ≤ nodes.length + 1 := by
  cases op with
  | insert a =>
    have hmono : nodes.Pairwise fun x y => decide (lt a x) = true → decide (lt a y) = true :=
      hord.imp fun hxy hax => decide_eq_true (trans_of lt (of_decide_eq_true hax) hxy)
    obtain ⟨s', b, e, hs', htree, rfl, hb, he⟩ := h.insert hv.1 hv.2 hmono hfuel
    have hb' : ∀ x ∈ b, ¬lt a x := fun x hx hlt => hb x hx (decide_eq_true hlt)
    have he' : ∀ x ∈ e, lt a x := fun x hx => of_decide_eq_true (he x hx)
    have hspec : RbOp.spec lt (.insert a) (b ++ e) = b ++ a :: e := orderedInsert_of_split hb' he'
    refine ⟨s', hs', by rwa [hspec], ?_, by rw [hspec]; simp; omega⟩
    rw [hspec, pairwise_append, pairwise_cons]
    rw [pairwise_append] at hord
    refine ⟨hord.1, ⟨he', hord.2.1⟩, fun x hx y hy => ?_⟩
    obtain rfl | hy := mem_cons.mp hy
    · have hne : x ≠ y := fun e => hv.2 (e ▸ mem_append_left _ hx)
      exact ((trichotomous_of lt x y).resolve_right fun h => h.elim hne (hb' x hx))
    · exact hord.2.2 x hx y hy
  | erase a =>
    obtain ⟨s', hs', htree⟩ := h.erase hv hfuel
    exact ⟨s', hs', htree, hord.sublist erase_sublist, (length_erase_le).trans (by omega)⟩

lemma rbRun_isRbTree {s : RbState} (ops : List RbOp) (h : IsRbTree s nodes)
    (hord : nodes.Pairwise lt) (hv : RbValid lt ops nodes) (hfuel : nodes.length + ops.length + 1 < fuel) :
    ∃ s', rbRun lt fuel ops s = some s' ∧ IsRbTree s' (rbSpec lt ops nodes) ∧
      (rbSpec lt ops nodes).Pairwise lt := by
  induction ops generalizing s nodes with
  | nil => exact ⟨s, rfl, h, hord⟩
  | cons op ops ih =>
    rw [length_cons] at hfuel
    obtain ⟨s1, hs1, h1, hord1, hlen1⟩ := @RbOp.exec_spec lt _ _ op s nodes fuel h hord hv.1 (by omega)
    obtain ⟨s', hs', h'⟩ := ih h1 hord1 hv.2 (by omega)
    exact ⟨s', by rwa [rbRun, hs1], h'⟩

/-- **The tree is a red-black tree after every sequence of insertions and removals**, with correct
parent links, and its nodes in order are those of the sequence: each insertion puts the node at its
place, each removal takes just the node out. -/
theorem rbRun_correct (mem : ℕ → RbNode) (ops : List RbOp) (fuel : ℕ) (hv : RbValid lt ops [])
    (hfuel : ops.length + 1 < fuel) :
    ∃ s t n, rbRun lt fuel ops (rbRoot mem) = some s ∧ HoldsTree s t ∧ IsRb t .black n ∧
      inorder t = rbSpec lt ops [] ∧ (inorder t).Pairwise lt := by
  have hfuel' : ([] : List ℕ).length + ops.length + 1 < fuel := by simpa using hfuel
  obtain ⟨s, hs, ⟨t, n, ht, hrb, hin⟩, hord⟩ :=
    rbRun_isRbTree ops (IsRbTree.empty mem) List.Pairwise.nil hv hfuel'
  exact ⟨s, t, n, hs, ht, hrb, hin, by rwa [hin]⟩

theorem rbRun_correct_small :
    ∃ s t n, rbRun (· < ·) 6 [.insert 8, .insert 4, .insert 12, .erase 8] (rbRoot fun _ => ⟨0, 0, 0⟩) =
      some s ∧ HoldsTree s t ∧ IsRb t .black n ∧ inorder t = [4, 12] ∧ (inorder t).Pairwise (· < ·) :=
  rbRun_correct _ _ 6 (by simp [RbValid, RbOp.Valid, RbOp.spec, IsNode]) (by decide)

end Runs

end Obelisk
