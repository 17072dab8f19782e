import Obelisk.Lib.ColorTree

/-!
# Red-black tree: the pointer code

The intrusive tree of `lib/rbtree.c`. A node keeps its parent's address and its colour in one word;
addresses are numbers and `0` is `NULL`. The source writes every case twice, once for each side; here
the side is an argument.

Loops of the source take fuel, and `none` says that it ran out.
-/

namespace Obelisk

open KLib

/-! ## Nodes -/

/-- `struct rb_node` -/
structure RbNode where
  parentColor : ℕ
  left : ℕ
  right : ℕ
  deriving DecidableEq, Repr

def rbBit : Color → ℕ
  | .red => 0
  | .black => 1

namespace RbNode

def parent (n : RbNode) : ℕ := n.parentColor / 4 * 4

def color (n : RbNode) : ℕ := n.parentColor % 2

def isRed (n : RbNode) : Bool := n.color == 0

def isBlack (n : RbNode) : Bool := !n.isRed

def child (n : RbNode) (d : Side) : ℕ := (d.pick n.left n.right).1

def setChild (n : RbNode) (d : Side) (x : ℕ) : RbNode :=
  match d with
  | .left => { n with left := x }
  | .right => { n with right := x }

def setParent (n : RbNode) (p : ℕ) : RbNode := { n with parentColor := n.parentColor % 4 ||| p }

def setColor (n : RbNode) (c : ℕ) : RbNode := { n with parentColor := n.parentColor / 2 * 2 ||| c }

end RbNode

/-! ## Memory -/

/-- The root and the memory of the nodes. -/
structure RbState where
  root : ℕ
  mem : ℕ → RbNode

namespace RbState

def upd (s : RbState) (a : ℕ) (f : RbNode → RbNode) : RbState :=
  { s with mem := Function.update s.mem a (f (s.mem a)) }

def setChild (s : RbState) (d : Side) (a x : ℕ) : RbState := s.upd a (·.setChild d x)

def setParent (s : RbState) (a p : ℕ) : RbState := s.upd a (·.setParent p)

def setColor (s : RbState) (a c : ℕ) : RbState := s.upd a (·.setColor c)

def relink (s : RbState) (d : Side) (parent old new : ℕ) : RbState :=
  if parent ≠ 0 then
    if old = (s.mem parent).child d then s.setChild d parent new
    else s.setChild d.flip parent new
  else { s with root := new }

end RbState

def rbRoot (mem : ℕ → RbNode) : RbState := ⟨0, mem⟩

/-! ## Insertion -/

/-- `rb_link_node`, with the link that `*rb_link` is: the root or a side of the parent. -/
def rbLinkNode (node parent : ℕ) (link : Option Side) (s : RbState) : RbState :=
  let s := s.upd node fun _ => ⟨parent, 0, 0⟩
  match link with
  | none => { s with root := node }
  | some d => s.setChild d parent node

/-- `rb_rotate_left` for the left side, `rb_rotate_right` for the right side: the child on the other
side goes up. -/
def rbRotate (d : Side) (node : ℕ) (s : RbState) : RbState :=
  let up := (s.mem node).child d.flip
  let parent := (s.mem node).parent
  let inner := (s.mem up).child d
  let s := s.setChild d.flip node inner
  let s := if inner ≠ 0 then s.setParent inner node else s
  let s := s.setChild d up node
  let s := s.setParent up parent
  let s := s.relink d parent node up
  s.setParent node up

def rbRotateLeft : ℕ → RbState → RbState := rbRotate .left

def rbRotateRight : ℕ → RbState → RbState := rbRotate .right

/-- The end of a round of `rb_insert_color` with a black uncle, on side `d`; the node with which the
loop goes on. -/
def rbInsertRotate (d : Side) (node parent gparent : ℕ) (s : RbState) : ℕ × RbState :=
  let inner := node = (s.mem parent).child d.flip
  let s := if inner then rbRotate d parent s else s
  let top := if inner then node else parent
  let node := if inner then parent else node
  let s := s.setColor top (rbBit .black)
  let s := s.setColor gparent (rbBit .red)
  (node, rbRotate d.flip gparent s)

def rbInsertColor : ℕ → ℕ → RbState → Option RbState
  | 0, _, _ => none
  | fuel + 1, node, s =>
    let parent := (s.mem node).parent
    if parent ≠ 0 ∧ (s.mem parent).isRed then
      let gparent := (s.mem parent).parent
      let d : Side := if parent = (s.mem gparent).left then .left else .right
      let uncle := (s.mem gparent).child d.flip
      if uncle ≠ 0 ∧ (s.mem uncle).isRed then
        let s := s.setColor uncle (rbBit .black)
        let s := s.setColor parent (rbBit .black)
        let s := s.setColor gparent (rbBit .red)
        rbInsertColor fuel gparent s
      else
        let r := rbInsertRotate d node parent gparent s
        rbInsertColor fuel r.1 r.2
    else some (s.setColor s.root (rbBit .black))

/-! ## Removal -/

def RbState.blackOrNull (s : RbState) (a : ℕ) : Bool := a == 0 || (s.mem a).isBlack

def rbEraseUp (d : Side) (parent sibling : ℕ) (s : RbState) : RbState :=
  let s := s.setColor sibling (s.mem parent).color
  let s := s.setColor parent (rbBit .black)
  let s := s.setColor ((s.mem sibling).child d.flip) (rbBit .black)
  let s := rbRotate d parent s
  -- the loop is left with `node = root->rb_node`
  if s.root ≠ 0 then s.setColor s.root (rbBit .black) else s

def rbEraseRotate (d : Side) (parent sibling : ℕ) (s : RbState) : RbState :=
  if s.blackOrNull ((s.mem sibling).child d.flip) then
    let s := s.setColor ((s.mem sibling).child d) (rbBit .black)
    let s := s.setColor sibling (rbBit .red)
    let s := rbRotate d.flip sibling s
    rbEraseUp d parent ((s.mem parent).child d.flip) s
  else rbEraseUp d parent sibling s

/-- The sibling in a round of `rb_erase_color`; a red one is rotated above the parent first. -/
def rbEraseSib (d : Side) (parent : ℕ) (s : RbState) : ℕ × RbState :=
  let sibling := (s.mem parent).child d.flip
  if (s.mem sibling).isRed then
    let s := s.setColor sibling (rbBit .black)
    let s := s.setColor parent (rbBit .red)
    let s := rbRotate d parent s
    ((s.mem parent).child d.flip, s)
  else (sibling, s)

def rbEraseColor : ℕ → ℕ → ℕ → RbState → Option RbState
  | 0, _, _, _ => none
  | fuel + 1, node, parent, s =>
    if s.blackOrNull node ∧ node ≠ s.root then
      let d : Side := if (s.mem parent).left = node then .left else .right
      let r := rbEraseSib d parent s
      let sibling := r.1
      let s := r.2
      if s.blackOrNull (s.mem sibling).left ∧ s.blackOrNull (s.mem sibling).right then
        let s := s.setColor sibling (rbBit .red)
        rbEraseColor fuel parent (s.mem parent).parent s
      else some (rbEraseRotate d parent sibling s)
    else some (if node ≠ 0 then s.setColor node (rbBit .black) else s)

def rbLeftmost : ℕ → ℕ → RbState → Option ℕ
  | 0, _, _ => none
  | fuel + 1, node, s =>
    if (s.mem node).left ≠ 0 then rbLeftmost fuel (s.mem node).left s else some node

/-- What `rb_erase` passes to `rb_erase_color`, and the colour that left the tree. -/
structure RbHole where
  child : ℕ
  parent : ℕ
  color : ℕ

def rbUnlink (node child : ℕ) (s : RbState) : RbHole × RbState :=
  let parent := (s.mem node).parent
  let color := (s.mem node).color
  let s := if child ≠ 0 then s.setParent child parent else s
  (⟨child, parent, color⟩, s.relink .left parent node child)

/-- `rb_erase` of a node with two children: the next node takes its place, its children, its parent
and its colour. -/
def rbReplace (old node : ℕ) (s : RbState) : RbHole × RbState :=
  let s := s.relink .left (s.mem old).parent old node
  let child := (s.mem node).right
  let parent := (s.mem node).parent
  let color := (s.mem node).color
  let s :=
    if parent = old then s
    else
      let s := if child ≠ 0 then s.setParent child parent else s
      let s := s.setChild .left parent child
      let s := s.setChild .right node (s.mem old).right
      s.setParent (s.mem old).right node
  let s := s.upd node fun n => { n with parentColor := (s.mem old).parentColor }
  let s := s.setChild .left node (s.mem old).left
  let s := s.setParent (s.mem old).left node
  (⟨child, if parent = old then node else parent, color⟩, s)

def rbTake (fuel node : ℕ) (s : RbState) : Option (RbHole × RbState) :=
  if (s.mem node).left = 0 then some (rbUnlink node (s.mem node).right s)
  else if (s.mem node).right = 0 then some (rbUnlink node (s.mem node).left s)
  else (rbLeftmost fuel (s.mem node).right s).map fun next => rbReplace node next s

def rbErase (fuel node : ℕ) (s : RbState) : Option RbState :=
  (rbTake fuel node s).bind fun r =>
    if r.1.color = rbBit .black then rbEraseColor fuel r.1.child r.1.parent r.2 else some r.2

end Obelisk
