import Mathlib.Data.List.Basic

/-!
# Red-black trees with a cursor

Binary trees with coloured nodes, the path from a node up to the root, and the two repairs of a
red-black tree as functions of a path and the subtree below it.
-/

namespace KLib

open List

inductive Color
  | red
  | black
  deriving DecidableEq, Repr

/-- Which child of its parent a node is. -/
inductive Side
  | left
  | right
  deriving DecidableEq, Repr

def Side.flip : Side → Side
  | left => right
  | right => left

def Side.pick {β : Type*} (d : Side) (l r : β) : β × β :=
  match d with
  | left => (l, r)
  | right => (r, l)

inductive ColorTree (α : Type*)
  | nil
  | node (c : Color) (l : ColorTree α) (a : α) (r : ColorTree α)
  deriving DecidableEq, Repr

namespace ColorTree

variable {α : Type*}

def branch (d : Side) (c : Color) (t : ColorTree α) (a : α) (u : ColorTree α) : ColorTree α :=
  node c (d.pick t u).1 a (d.pick t u).2

def inorder : ColorTree α → List α
  | nil => []
  | node _ l a r => inorder l ++ a :: inorder r

def isRed : ColorTree α → Bool
  | node .red _ _ _ => true
  | _ => false

def blacken : ColorTree α → ColorTree α
  | nil => nil
  | node _ l a r => node .black l a r

lemma branch_flip (d : Side) (c : Color) (t : ColorTree α) (a : α) (u : ColorTree α) :
    branch d.flip c u a t = branch d c t a u := by
  cases d <;> rfl

lemma branch_pick (d : Side) (c : Color) (l : ColorTree α) (a : α) (r : ColorTree α) :
    branch d c (d.pick l r).1 a (d.pick l r).2 = node c l a r := by
  cases d <;> rfl

/-- A step of the path to a node: the parent and its other subtree. -/
structure Frame (α : Type*) where
  side : Side
  color : Color
  key : α
  sib : ColorTree α

abbrev TreePath (α : Type*) := List (Frame α)

def Frame.fill (f : Frame α) (t : ColorTree α) : ColorTree α := branch f.side f.color t f.key f.sib

def plug : TreePath α → ColorTree α → ColorTree α
  | [], t => t
  | f :: p, t => plug p (f.fill t)

lemma plug_append (p q : TreePath α) (t : ColorTree α) : plug (p ++ q) t = plug q (plug p t) := by
  induction p generalizing t with
  | nil => rfl
  | cons f p ih => exact ih _

lemma plug_other (d : Side) (c : Color) (a : α) (t u : ColorTree α) (p : TreePath α) :
    plug (⟨d.flip, c, a, t⟩ :: p) u = plug p (branch d c t a u) := by
  rw [plug, Frame.fill, branch_flip]

lemma plug_sib (f : Frame α) (p : TreePath α) (t : ColorTree α) :
    plug (⟨f.side.flip, f.color, f.key, t⟩ :: p) f.sib = plug (f :: p) t := by
  rw [plug, plug, Frame.fill, Frame.fill, branch_flip]

lemma plug_ne_nil {p : TreePath α} {t : ColorTree α} (ht : t ≠ nil) : plug p t ≠ nil := by
  induction p generalizing t with
  | nil => exact ht
  | cons f p ih => exact ih nofun

lemma inorder_plug (p : TreePath α) :
    ∃ before after, ∀ t, inorder (plug p t) = before ++ inorder t ++ after := by
  induction p with
  | nil => exact ⟨[], [], fun t => by simp [plug]⟩
  | cons f p ih =>
    obtain ⟨before, after, h⟩ := ih
    obtain ⟨_ | _, c, a, sib⟩ := f
    · exact ⟨before, a :: inorder sib ++ after, fun t => by
        simp [plug, h, Frame.fill, branch, Side.pick, inorder]⟩
    exact ⟨before ++ inorder sib ++ [a], after, fun t => by
      simp [plug, h, Frame.fill, branch, Side.pick, inorder]⟩

lemma inorder_plug_congr (p : TreePath α) {t u : ColorTree α} (h : inorder t = inorder u) :
    inorder (plug p t) = inorder (plug p u) := by
  obtain ⟨before, after, hp⟩ := inorder_plug p
  rw [hp, hp, h]

@[simp] lemma inorder_blacken (t : ColorTree α) : inorder t.blacken = inorder t := by
  cases t <;> rfl

/-! ## Red-black trees -/

/-- No red node has a red child, and every way down passes `n` black nodes; the root has colour `c`,
and an empty tree counts as black. -/
inductive IsRb : ColorTree α → Color → ℕ → Prop
  | nil : IsRb nil .black 0
  | red {l r : ColorTree α} {a : α} {n : ℕ} : IsRb l .black n → IsRb r .black n → IsRb (node .red l a r) .red n
  | black {l r : ColorTree α} {a : α} {c c' : Color} {n : ℕ} :
      IsRb l c n → IsRb r c' n → IsRb (node .black l a r) .black (n + 1)

/-- A tree of colour `c` and black height `n` below the path gives a red-black tree with a black
root. -/
inductive Accepts : TreePath α → Color → ℕ → Prop
  | root {n : ℕ} : Accepts [] .black n
  | red {d : Side} {a : α} {sib : ColorTree α} {p : TreePath α} {n : ℕ} :
      IsRb sib .black n → Accepts p .red n → Accepts (⟨d, .red, a, sib⟩ :: p) .black n
  | black {d : Side} {a : α} {sib : ColorTree α} {p : TreePath α} {c c' : Color} {n : ℕ} :
      IsRb sib c' n → Accepts p .black (n + 1) → Accepts (⟨d, .black, a, sib⟩ :: p) c n

section IsRb

variable {t u : ColorTree α} {a : α} {n : ℕ} {c c' : Color} {p : TreePath α}

lemma IsRb.branch_red (d : Side) (ht : IsRb t .black n) (hu : IsRb u .black n) :
    IsRb (branch d .red t a u) .red n := by
  cases d
  · exact .red ht hu
  · exact .red hu ht

lemma IsRb.branch_black (d : Side) (ht : IsRb t c n) (hu : IsRb u c' n) :
    IsRb (branch d .black t a u) .black (n + 1) := by
  cases d
  · exact .black ht hu
  · exact .black hu ht

lemma IsRb.exists_branch (ht : IsRb t .red n) (d : Side) :
    ∃ near b far, t = branch d .red near b far ∧ IsRb near .black n ∧ IsRb far .black n := by
  cases ht with
  | @red l r b _ hl hr =>
    cases d with
    | left => exact ⟨l, b, r, rfl, hl, hr⟩
    | right => exact ⟨r, b, l, rfl, hr, hl⟩

lemma IsRb.plug (ht : IsRb t c n) (hp : Accepts p c n) : ∃ m, IsRb (plug p t) .black m := by
  induction hp generalizing t with
  | root => exact ⟨_, ht⟩
  | red hs _ ih => exact ih (.branch_red _ ht hs)
  | black hs _ ih => exact ih (.branch_black _ ht hs)

lemma Accepts.to_black (hp : Accepts p c n) : Accepts p .black n := by
  cases hp with
  | root => exact .root
  | red hs h => exact .red hs h
  | black hs h => exact .black hs h

lemma IsRb.of_isRed (ht : IsRb t c n) (h : t.isRed) : IsRb t .red n := by
  cases ht with
  | red hl hr => exact .red hl hr
  | _ => cases h

lemma IsRb.of_not_isRed (ht : IsRb t c n) (h : ¬t.isRed) : IsRb t .black n := by
  cases ht with
  | nil => exact .nil
  | red => exact absurd rfl h
  | black hl hr => exact .black hl hr

lemma IsRb.ne_nil (ht : IsRb t c (n + 1)) : t ≠ .nil := by
  rintro rfl
  cases ht

lemma IsRb.blacken_red (ht : IsRb t .red n) : IsRb t.blacken .black (n + 1) := by
  cases ht with
  | red hl hr => exact .black hl hr

lemma IsRb.blacken_black (ht : IsRb t .black n) : t.blacken = t := by
  cases ht <;> rfl

lemma IsRb.blacken (ht : IsRb t c n) : ∃ m, IsRb t.blacken .black m := by
  cases c with
  | red => exact ⟨_, ht.blacken_red⟩
  | black => exact ⟨n, by rwa [ht.blacken_black]⟩

end IsRb

def insertRotate (f g : Frame α) (t : ColorTree α) : ColorTree α :=
  if f.side = g.side then
    branch g.side .black t f.key (branch g.side .red f.sib g.key g.sib)
  else
    match t with
    | nil => g.fill (f.fill nil)
    | node _ l a r =>
      let x := g.side.pick l r
      branch g.side .black (branch g.side .red f.sib f.key x.1) a (branch g.side .red x.2 g.key g.sib)

def insertFix : TreePath α → ColorTree α → ColorTree α
  | f :: g :: p, t =>
    if f.color = .red then
      if g.sib.isRed then
        insertFix p (branch g.side .red (branch f.side .black t f.key f.sib) g.key g.sib.blacken)
      else blacken (plug p (insertRotate f g t))
    else blacken (plug (f :: g :: p) t)
  | p, t => blacken (plug p t)

lemma insertRotate_inorder (f g : Frame α) (t : ColorTree α) :
    inorder (insertRotate f g t) = inorder (g.fill (f.fill t)) := by
  obtain ⟨_ | _, cf, kf, sf⟩ := f <;> obtain ⟨_ | _, cg, kg, sg⟩ := g <;> cases t <;>
    simp [insertRotate, Frame.fill, branch, Side.pick, inorder]

lemma insertFix_inorder (p : TreePath α) (t : ColorTree α) :
    inorder (insertFix p t) = inorder (plug p t) := by
  fun_induction insertFix p t with
  | case1 f g p t hf hu ih =>
    rw [ih]
    refine inorder_plug_congr p ?_
    obtain ⟨_ | _, cf, kf, sf⟩ := f <;> obtain ⟨_ | _, cg, kg, sg⟩ := g <;>
      simp [Frame.fill, branch, Side.pick, inorder]
  | case2 f g p t hf hu =>
    rw [inorder_blacken]
    exact inorder_plug_congr p (insertRotate_inorder f g t)
  | case3 | case4 => exact inorder_blacken _

lemma insertRotate_isRb {f g : Frame α} {t : ColorTree α} {n : ℕ} (ht : IsRb t .red n)
    (hf : IsRb f.sib .black n) (hg : IsRb g.sib .black n) :
    IsRb (insertRotate f g t) .black (n + 1) := by
  cases ht with
  | @red l r a _ hl hr =>
    rw [insertRotate]
    split_ifs with hd
    · exact .branch_black _ (IsRb.red hl hr) (.branch_red _ hf hg)
    cases g.side
    · exact .branch_black _ (.branch_red _ hf hl) (.branch_red _ hr hg)
    · exact .branch_black _ (.branch_red _ hf hr) (.branch_red _ hl hg)

lemma insertFix_isRb {p : TreePath α} {t : ColorTree α} {n : ℕ} (ht : IsRb t .red n)
    (hp : Accepts p .black n) : ∃ m, IsRb (insertFix p t) .black m := by
  -- where the loop stops at a black parent, the path takes the red node as it is
  have stop {p : TreePath α} {t : ColorTree α} {n : ℕ} (ht : IsRb t .red n) (hp : Accepts p .red n) :
      ∃ m, IsRb (blacken (plug p t)) .black m := (ht.plug hp).elim fun _ h => h.blacken
  fun_induction insertFix p t generalizing n with
  | case1 f g p t hf hu ih =>
    cases hp with
    | black => cases hf
    | red hs hp =>
      cases hp with
      | black hu' hp =>
        exact ih (.branch_red _ (.branch_black _ ht hs) (hu'.of_isRed hu).blacken_red) hp
  | case2 f g p t hf hu =>
    cases hp with
    | black => cases hf
    | red hs hp =>
      cases hp with
      | black hu' hp =>
        obtain ⟨m, h⟩ := (@insertRotate_isRb _ ⟨_, _, _, _⟩ ⟨_, _, _, _⟩ t n ht hs (hu'.of_not_isRed hu)).plug hp
        exact h.blacken
  | case3 f g p t hf =>
    cases hp with
    | black hs hp => exact stop ht (.black hs hp)
    | red => exact absurd rfl hf
  | case4 p t h =>
    cases hp with
    | root => exact ⟨_, ht.blacken_red⟩
    | black hs hp => exact stop ht (.black hs hp)
    | red hs hp =>
      -- a red parent is not the root
      cases hp with
      | black => exact (h _ _ _ rfl).elim

/-! ## Repair after a removal -/

def bothBlack (s : ColorTree α) : Bool :=
  match s with
  | nil => true
  | node _ l _ r => !l.isRed && !r.isRed

/-- The rotations at a parent `a` of colour `c` for a child `t` that is short of one black node and
its black sibling with a red child. -/
def eraseRotate (d : Side) (c : Color) (a : α) (t sib : ColorTree α) : ColorTree α :=
  match sib with
  | nil => branch d c t a nil
  | node _ l s r =>
    let near := (d.pick l r).1
    let far := (d.pick l r).2
    if far.isRed then branch d c (branch d .black t a near) s far.blacken
    else
      match near with
      | nil => branch d c t a sib
      | node _ xl x xr =>
        branch d c (branch d .black t a (d.pick xl xr).1) x (branch d .black (d.pick xl xr).2 s far)

def redden : ColorTree α → ColorTree α
  | nil => nil
  | node _ l a r => node .red l a r

/-- The red sibling is rotated above the parent, which becomes red, so that the repair ends with the
new sibling. -/
def eraseRed (f : Frame α) (p : TreePath α) (t : ColorTree α) : ColorTree α :=
  match f.sib with
  | nil => plug (f :: p) t
  | node _ l s r =>
    if (f.side.pick l r).1.bothBlack then
      plug (⟨f.side, .black, s, (f.side.pick l r).2⟩ :: p) (branch f.side .black t f.key (f.side.pick l r).1.redden)
    else
      blacken (plug (⟨f.side, .black, s, (f.side.pick l r).2⟩ :: p)
        (eraseRotate f.side .red f.key t (f.side.pick l r).1))

def eraseFix : TreePath α → ColorTree α → ColorTree α
  | [], t => t.blacken
  | f :: p, t =>
    if t.isRed then plug (f :: p) t.blacken
    else if f.sib.isRed then eraseRed f p t
    else if f.sib.bothBlack then eraseFix p (branch f.side f.color t f.key f.sib.redden)
    else blacken (plug p (eraseRotate f.side f.color f.key t f.sib))

lemma eraseRotate_branch (d : Side) (c cs : Color) (a b : α) (t near far : ColorTree α) :
    eraseRotate d c a t (branch d cs near b far) =
      if far.isRed then branch d c (branch d .black t a near) b far.blacken
      else
        match near with
        | nil => branch d c t a (branch d cs nil b far)
        | node _ xl x xr =>
          branch d c (branch d .black t a (d.pick xl xr).1) x
            (branch d .black (d.pick xl xr).2 b far) := by
  cases d <;> cases near <;> rfl

lemma eraseRed_branch (d : Side) (c cs : Color) (a b : α) (near far t : ColorTree α) (p : TreePath α) :
    eraseRed ⟨d, c, a, branch d cs near b far⟩ p t = if near.bothBlack then
        plug (⟨d, .black, b, far⟩ :: p) (branch d .black t a near.redden)
      else blacken (plug (⟨d, .black, b, far⟩ :: p) (eraseRotate d .red a t near)) := by
  cases d <;> rfl

lemma bothBlack_branch (d : Side) (c : Color) (near : ColorTree α) (b : α) (far : ColorTree α) :
    (branch d c near b far).bothBlack = (!near.isRed && !far.isRed) := by
  cases d
  · rfl
  · exact Bool.and_comm ..

@[simp] lemma inorder_redden (t : ColorTree α) : inorder t.redden = inorder t := by
  cases t <;> rfl

lemma eraseRotate_inorder (d : Side) (c : Color) (a : α) (t sib : ColorTree α) :
    inorder (eraseRotate d c a t sib) = inorder (branch d c t a sib) := by
  cases sib with
  | nil => rfl
  | node cs l s r =>
    rw [eraseRotate]
    split_ifs with hf
    · cases d <;> simp [branch, Side.pick, inorder]
    cases hn : (d.pick l r).1 with
    | nil => rfl
    | node cx xl x xr =>
      cases d <;> simp only [Side.pick] at hn <;> simp [branch, Side.pick, inorder, hn]

lemma eraseRed_inorder (f : Frame α) (p : TreePath α) (t : ColorTree α) :
    inorder (eraseRed f p t) = inorder (plug (f :: p) t) := by
  obtain ⟨d, c, k, sib⟩ := f
  cases sib with
  | nil => rfl
  | node cs l s r =>
    dsimp only [eraseRed]
    split_ifs with hb
    · refine inorder_plug_congr p ?_
      cases d <;> simp [Frame.fill, branch, Side.pick, inorder]
    have := inorder_plug_congr [⟨d, .black, s, (d.pick l r).2⟩] (eraseRotate_inorder d .red k t (d.pick l r).1)
    rw [inorder_blacken]
    refine inorder_plug_congr p (this.trans ?_)
    cases d <;> simp [plug, Frame.fill, branch, Side.pick, inorder]

lemma eraseFix_inorder (p : TreePath α) (t : ColorTree α) :
    inorder (eraseFix p t) = inorder (plug p t) := by
  fun_induction eraseFix p t with
  | case1 t => exact inorder_blacken t
  | case2 f p t ht => exact inorder_plug_congr (f :: p) (inorder_blacken t)
  | case3 f p t ht hs => exact eraseRed_inorder f p t
  | case4 f p t ht hs hb ih =>
    rw [ih]
    refine inorder_plug_congr p ?_
    obtain ⟨_ | _, cf, kf, sf⟩ := f <;> simp [Frame.fill, branch, Side.pick, inorder]
  | case5 f p t ht hs hb =>
    rw [inorder_blacken]
    exact inorder_plug_congr p (eraseRotate_inorder ..)

variable {s : ColorTree α}

lemma IsRb.redden {n : ℕ} (hs : IsRb s .black (n + 1)) (hb : s.bothBlack) :
    IsRb s.redden .red n := by
  cases hs with
  | black hl hr =>
    rw [bothBlack, Bool.and_eq_true, Bool.not_eq_true', Bool.not_eq_true'] at hb
    exact .red (hl.of_not_isRed (by simp [hb.1])) (hr.of_not_isRed (by simp [hb.2]))

lemma eraseRotate_eq {t : ColorTree α} {n : ℕ} (d : Side) (a : α) (ht : IsRb t .black n)
    (hs : IsRb s .black (n + 1)) (hb : ¬s.bothBlack) :
    ∃ l x r, IsRb l .black (n + 1) ∧ IsRb r .black (n + 1) ∧
      ∀ c, eraseRotate d c a t s = branch d c l x r := by
  cases hs with
  | @black l r k cl cr _ hl hr =>
    -- the children in the order of the side
    obtain ⟨cn, cf, hn, hf⟩ : ∃ cn cf, IsRb (d.pick l r).1 cn n ∧ IsRb (d.pick l r).2 cf n := by
      cases d
      · exact ⟨cl, cr, hl, hr⟩
      · exact ⟨cr, cl, hr, hl⟩
    have hor : (d.pick l r).1.isRed ∨ (d.pick l r).2.isRed := by
      cases d <;> simp only [bothBlack, Side.pick] at hb ⊢ <;> grind
    by_cases hfar : (d.pick l r).2.isRed
    · exact ⟨_, _, _, .branch_black _ ht hn, (hf.of_isRed hfar).blacken_red, fun c => by
        rw [eraseRotate, if_pos hfar]⟩
    have hnear := hn.of_isRed (hor.resolve_right hfar)
    generalize hx : (d.pick l r).1 = near at hnear
    cases hnear with
    | @red xl xr x _ hxl hxr =>
      refine ⟨branch d .black t a (d.pick xl xr).1, x,
        branch d .black (d.pick xl xr).2 k (d.pick l r).2, ?_, ?_, fun c => by
          rw [eraseRotate, if_neg hfar, hx]⟩
      · cases d
        · exact .branch_black _ ht hxl
        · exact .branch_black _ ht hxr
      cases d
      · exact .branch_black _ hxr hf
      · exact .branch_black _ hxl hf

variable {f : Frame α} {l r : ColorTree α}

lemma Accepts.refill {p : TreePath α} {c : Color} {n : ℕ} {x : α}
    (hp : Accepts (f :: p) c n) (hl : IsRb l .black n) (hr : IsRb r .black n) :
    ∃ m, IsRb (plug p (branch f.side f.color l x r)) .black m := by
  cases hp with
  | red _ hp => exact IsRb.plug (.branch_red _ hl hr) hp
  | black _ hp => exact IsRb.plug (.branch_black _ hl hr) hp

lemma eraseRed_isRb {p : TreePath α} {t : ColorTree α} {n : ℕ} (ht : IsRb t .black n)
    (hp : Accepts (f :: p) .black (n + 1)) (hs : f.sib.isRed) :
    ∃ m, IsRb (eraseRed f p t) .black m := by
  cases hp with
  | red hs' =>
    cases hs'
    cases hs
  | @black d a sib _ _ c' _ hs' hp =>
    obtain ⟨near, b, far, rfl, hn, hf⟩ := (hs'.of_isRed hs).exists_branch d
    rw [eraseRed_branch]
    split_ifs with hb
    · exact (IsRb.branch_black d ht (hn.redden hb)).plug (.black hf hp)
    obtain ⟨l', x, r', hl', hr', h⟩ := eraseRotate_eq d a ht hn hb
    rw [h]
    obtain ⟨m, hm⟩ := (IsRb.branch_red d hl' hr').plug (.black hf hp)
    exact hm.blacken

lemma Accepts.sib_ne_nil {p : TreePath α} {c : Color} {n : ℕ}
    (hp : Accepts (f :: p) c (n + 1)) : f.sib ≠ nil := by
  cases hp with
  | red hs => exact hs.ne_nil
  | black hs => exact hs.ne_nil

lemma Accepts.sib_black {p : TreePath α} {n : ℕ} (hp : Accepts (f :: p) .black n)
    (hs : ¬f.sib.isRed) : IsRb f.sib .black n := by
  cases hp with
  | red hs' => exact hs'
  | black hs' => exact hs'.of_not_isRed hs

lemma eraseFix_of_isRed {t : ColorTree α} (p : TreePath α) (ht : t.isRed) :
    eraseFix p t = plug p t.blacken := by
  cases p with
  | nil => rfl
  | cons f p => rw [eraseFix, if_pos ht]

lemma eraseFix_isRb {p : TreePath α} {t : ColorTree α} {c : Color} {n : ℕ} (ht : IsRb t c n)
    (hp : Accepts p .black (n + 1)) : ∃ m, IsRb (eraseFix p t) .black m := by
  fun_induction eraseFix p t generalizing c n with
  | case1 t => exact ht.blacken
  | case2 f p t h => exact (ht.of_isRed h).blacken_red.plug hp
  | case3 f p t h hs => exact eraseRed_isRb (ht.of_not_isRed h) hp hs
  | case4 f p t h hs hb ih =>
    have hsib := (hp.sib_black hs).redden hb
    -- a black parent is short in turn, a red one is painted black in the next round
    cases hp with
    | red _ hp =>
      rw [eraseFix_of_isRed p rfl]
      exact IsRb.plug (.branch_black _ ht hsib) hp.to_black
    | black _ hp => exact ih (.branch_black _ ht hsib) hp
  | case5 f p t h hs hb =>
    obtain ⟨l, x, r, hl, hr, he⟩ := eraseRotate_eq f.side f.key (ht.of_not_isRed h) (hp.sib_black hs) hb
    rw [he]
    obtain ⟨m, h⟩ := hp.refill hl hr
    exact h.blacken

/-! ## Removing a node -/

def leftmost (q : TreePath α) (c : Color) (l : ColorTree α) (a : α) (r : ColorTree α) :
    TreePath α × Color × α × ColorTree α :=
  match l with
  | nil => (q, c, a, r)
  | node c' l' a' r' => leftmost (⟨.left, c, a, r⟩ :: q) c' l' a' r'

def close (p : TreePath α) (c : Color) (t : ColorTree α) : ColorTree α :=
  if c = .black then eraseFix p t else plug p t

/-- The node `a` with its children is removed from below the path; if it has two children the next
node takes its place and its colour. -/
def eraseAt (p : TreePath α) (c : Color) (l : ColorTree α) (r : ColorTree α) : ColorTree α :=
  match l, r with
  | nil, r => close p c r
  | l, nil => close p c l
  | l, node cr rl k rr =>
    let x := leftmost [] cr rl k rr
    close (x.1 ++ ⟨.right, c, x.2.2.1, l⟩ :: p) x.2.1 x.2.2.2

lemma leftmost_append (q q' : TreePath α) (c : Color) (l : ColorTree α) (a : α) (r : ColorTree α) :
    leftmost (q ++ q') c l a r = ((leftmost q c l a r).1 ++ q', (leftmost q c l a r).2) := by
  induction l generalizing q c a r with
  | nil => rfl
  | node c' l' a' r' ih => exact ih (⟨.left, c, a, r⟩ :: q) c' a' r'

lemma plug_leftmost (q : TreePath α) (c : Color) (l : ColorTree α) (a : α) (r : ColorTree α) :
    plug (leftmost q c l a r).1 (node (leftmost q c l a r).2.1 nil (leftmost q c l a r).2.2.1
      (leftmost q c l a r).2.2.2) = plug q (node c l a r) := by
  induction l generalizing q c a r with
  | nil => rfl
  | node c' l' a' r' ih => exact ih (⟨.left, c, a, r⟩ :: q) c' a' r'

variable {q : TreePath α}

lemma inorder_plug_leftmost {e : List α} (c : Color) (l : ColorTree α) (a : α)
    (r : ColorTree α) (hq : ∀ t, inorder (plug q t) = inorder t ++ e) :
    ∃ e', ∀ t, inorder (plug (leftmost q c l a r).1 t) = inorder t ++ e' := by
  induction l generalizing q c a r e with
  | nil => exact ⟨e, hq⟩
  | node c' l' a' r' ih =>
    exact ih c' a' r' fun t => by
      rw [plug, hq]
      show inorder t ++ a :: inorder r ++ e = _
      rw [append_assoc]

lemma leftmost_isRb {c : Color} {a : α} {n : ℕ}
    (h : IsRb (node c l a r) c n) (hq : Accepts q c n) :
    ∃ m, IsRb (node (leftmost q c l a r).2.1 .nil (leftmost q c l a r).2.2.1
        (leftmost q c l a r).2.2.2) (leftmost q c l a r).2.1 m ∧
      Accepts (leftmost q c l a r).1 (leftmost q c l a r).2.1 m := by
  induction l generalizing q c a r n with
  | nil => exact ⟨n, h, hq⟩
  | node c' l' a' r' ih =>
    cases h with
    | red hl hr =>
      cases hl with
      | black hl hl' => exact ih (.black hl hl') (.red hr hq)
    | black hl hr =>
      cases hl with
      | red hl hl' => exact ih (.red hl hl') (.black hr hq)
      | black hl hl' => exact ih (.black hl hl') (.black hr hq)

lemma close_isRb {p : TreePath α} {c c' : Color} {t : ColorTree α} {a : α} {n : ℕ}
    (h : IsRb (node c l a t) c' n) (hp : Accepts p c n) : ∃ m, IsRb (close p c t) .black m := by
  cases h with
  | red _ ht => exact ht.plug hp.to_black
  | black _ ht => exact eraseFix_isRb ht hp

lemma close_inorder (p : TreePath α) (c : Color) (t : ColorTree α) :
    inorder (close p c t) = inorder (plug p t) := by
  rw [close]
  split_ifs
  · exact eraseFix_inorder p t
  · rfl

lemma IsRb.swap {c c' : Color} {a : α} {n : ℕ} (h : IsRb (node c l a r) c' n) :
    IsRb (node c r a l) c' n := by
  cases h with
  | red hl hr => exact .red hr hl
  | black hl hr => exact .black hr hl

lemma leftmost_accepts {p : TreePath α} {c cr : Color} {rl rr : ColorTree α} {a k : α} {n : ℕ} (b : α)
    (h : IsRb (node c l a (node cr rl k rr)) c n) (hp : Accepts p c n) :
    ∃ m, IsRb (node (leftmost [] cr rl k rr).2.1 .nil (leftmost [] cr rl k rr).2.2.1
        (leftmost [] cr rl k rr).2.2.2) (leftmost [] cr rl k rr).2.1 m ∧
      Accepts ((leftmost [] cr rl k rr).1 ++ ⟨.right, c, b, l⟩ :: p) (leftmost [] cr rl k rr).2.1 m := by
  obtain ⟨m, hr, hq⟩ : ∃ m, IsRb (node cr rl k rr) cr m ∧ Accepts (⟨.right, c, b, l⟩ :: p) cr m := by
    cases h with
    | red hl hr =>
      cases hr with
      | black hr hr' => exact ⟨_, .black hr hr', .red hl hp⟩
    | black hl hr =>
      cases hr with
      | red hr hr' => exact ⟨_, .red hr hr', .black hl hp⟩
      | black hr hr' => exact ⟨_, .black hr hr', .black hl hp⟩
  have happ := leftmost_append [] (⟨.right, c, b, l⟩ :: p) cr rl k rr
  rw [nil_append] at happ
  obtain ⟨m', hm, hq'⟩ := leftmost_isRb hr hq
  rw [happ] at hm hq'
  exact ⟨m', hm, hq'⟩

lemma leftmost_side (c : Color) (l : ColorTree α) (a : α) (r : ColorTree α)
    (hq : ∀ f ∈ q, f.side = .left) : ∀ f ∈ (leftmost q c l a r).1, f.side = .left := by
  induction l generalizing q c a r with
  | nil => exact hq
  | node c' l' a' r' ih =>
    refine ih c' a' r' fun f hf => ?_
    obtain rfl | hf := mem_cons.mp hf
    · rfl
    · exact hq f hf

lemma eraseAt_isRb {p : TreePath α} {c : Color} {a : α} {n : ℕ}
    (h : IsRb (node c l a r) c n) (hp : Accepts p c n) : ∃ m, IsRb (eraseAt p c l r) .black m := by
  unfold eraseAt
  split
  · exact close_isRb h hp
  · exact close_isRb h.swap hp
  obtain ⟨m, hm, hq⟩ := leftmost_accepts _ h hp
  exact close_isRb hm hq

lemma eraseAt_inorder (p : TreePath α) (c : Color) (l r : ColorTree α) (a : α) :
    ∃ before after, inorder (plug p (node c l a r)) = before ++ a :: after ∧
      inorder (eraseAt p c l r) = before ++ after := by
  obtain ⟨before, after, hp⟩ := inorder_plug p
  refine ⟨before ++ inorder l, inorder r ++ after, by simp [hp, inorder], ?_⟩
  unfold eraseAt
  split
  · simp [close_inorder, hp, inorder]
  · simp [close_inorder, hp, inorder]
  rename_i cr rl k rr _
  have hx := congrArg inorder (plug_leftmost [] cr rl k rr)
  obtain ⟨e, he⟩ := inorder_plug_leftmost cr rl k rr (q := []) (e := []) fun t => by simp [plug]
  generalize leftmost [] cr rl k rr = x at hx he
  rw [close_inorder, plug_append, plug, hp]
  have hx' := congrArg (· ++ after) hx
  simpa [Frame.fill, branch, Side.pick, inorder, plug, he] using hx'

lemma exists_plug_of_mem {t : ColorTree α} {c : Color} {n : ℕ} {p : TreePath α} {a : α}
    (ht : IsRb t c n) (hp : Accepts p c n) (ha : a ∈ inorder t) :
    ∃ q c' l r m, plug q (node c' l a r) = plug p t ∧ IsRb (node c' l a r) c' m ∧ Accepts q c' m := by
  induction ht generalizing p with
  | nil => cases ha
  | @red l r k n hl hr ihl ihr =>
    simp only [inorder, mem_append, mem_cons] at ha
    rcases ha with ha | rfl | ha
    · exact ihl (.red (d := .left) hr hp) ha
    · exact ⟨p, .red, l, r, n, rfl, .red hl hr, hp⟩
    · exact ihr (.red (d := .right) hl hp) ha
  | @black l r k c c' n hl hr ihl ihr =>
    simp only [inorder, mem_append, mem_cons] at ha
    rcases ha with ha | rfl | ha
    · exact ihl (.black (d := .left) hr hp) ha
    · exact ⟨p, .black, l, r, n + 1, rfl, .black hl hr, hp⟩
    · exact ihr (.black (d := .right) hl hp) ha

def descend (left : α → Bool) : TreePath α → ColorTree α → TreePath α
  | p, nil => p
  | p, node c l k r =>
    if left k then descend left (⟨.left, c, k, r⟩ :: p) l else descend left (⟨.right, c, k, l⟩ :: p) r

lemma plug_descend (left : α → Bool) (p : TreePath α) (t : ColorTree α) :
    plug (descend left p t) nil = plug p t := by
  induction t generalizing p with
  | nil => rfl
  | node c l k r ihl ihr =>
    rw [descend]
    split_ifs
    · exact ihl _
    · exact ihr _

lemma descend_accepts (left : α → Bool) {p : TreePath α} {t : ColorTree α} {c : Color} {n : ℕ}
    (ht : IsRb t c n) (hp : Accepts p c n) : Accepts (descend left p t) .black 0 := by
  induction ht generalizing p with
  | nil => exact hp
  | red hl hr ihl ihr =>
    rw [descend]
    split_ifs
    · exact ihl (.red hr hp)
    · exact ihr (.red hl hp)
  | black hl hr ihl ihr =>
    rw [descend]
    split_ifs
    · exact ihl (.black hr hp)
    · exact ihr (.black hl hp)

lemma inorder_plug_descend {left : α → Bool} {p : TreePath α} {t : ColorTree α} {b e : List α}
    (hp : ∀ u, inorder (plug p u) = b ++ inorder u ++ e)
    (hb : ∀ x ∈ b, ¬left x) (he : ∀ x ∈ e, left x)
    (ht : (inorder t).Pairwise fun x y => left x → left y) :
    ∃ b' e', (∀ x ∈ b', ¬left x) ∧ (∀ x ∈ e', left x) ∧
      ∀ u, inorder (plug (descend left p t) u) = b' ++ inorder u ++ e' := by
  induction t generalizing p b e with
  | nil => exact ⟨b, e, hb, he, hp⟩
  | node c l k r ihl ihr =>
    rw [inorder, pairwise_append, pairwise_cons] at ht
    obtain ⟨hl, ⟨hkr, hr⟩, hlr⟩ := ht
    rw [descend]
    split_ifs with hk
    · refine ihl (b := b) (e := k :: inorder r ++ e) (fun u => ?_) hb ?_ hl
      · rw [plug, hp]
        simp [Frame.fill, branch, Side.pick, inorder]
      · simp only [cons_append, mem_cons, mem_append]
        rintro x (rfl | hx | hx)
        · exact hk
        · exact hkr x hx hk
        · exact he x hx
    refine ihr (b := b ++ inorder l ++ [k]) (e := e) (fun u => ?_) ?_ he hr
    · rw [plug, hp]
      simp [Frame.fill, branch, Side.pick, inorder]
    simp only [append_assoc, mem_append, mem_singleton]
    rintro x (hx | hx | rfl)
    · exact hb x hx
    · exact fun h => hk (hlr x hx k mem_cons_self h)
    · exact hk

/-- **An insertion** puts just the new node in, before the keys in `left` and behind the others. -/
theorem insert_inorder {left : α → Bool} {t : ColorTree α} (a : α)
    (ht : (inorder t).Pairwise fun x y => left x → left y) :
    ∃ b e, (∀ x ∈ b, ¬left x) ∧ (∀ x ∈ e, left x) ∧ inorder t = b ++ e ∧
      inorder (insertFix (descend left [] t) (node .red nil a nil)) = b ++ a :: e := by
  obtain ⟨b, e, hb, he, h⟩ := @inorder_plug_descend _ left [] t [] [] (fun u => by simp [plug])
    (by simp) (by simp) ht
  refine ⟨b, e, hb, he, ?_, ?_⟩
  · have := h nil
    rw [plug_descend] at this
    simpa [plug, inorder] using this
  rw [insertFix_inorder, h]
  simp [inorder]

lemma insert_isRb (left : α → Bool) {t : ColorTree α} {n : ℕ} (a : α) (ht : IsRb t .black n) :
    ∃ m, IsRb (insertFix (descend left [] t) (node .red nil a nil)) .black m :=
  insertFix_isRb (.red .nil .nil) (descend_accepts left ht .root)

end ColorTree

end KLib
