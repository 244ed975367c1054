import OurOS.Lib.RedBlackErase
import OurOS.Lib.Cells
import OurOS.Utils

set_option linter.style.nameCheck false

namespace OurOS.Rbtree

open RedBlack (Side Color)
open Cells (modify)

/-- The address of the parent and the color are packed into one word. -/
structure RbNode where
  rbParentColor : ℕ
  rbRight : ℕ
  rbLeft : ℕ
deriving DecidableEq, Repr

def RbNode.child (n : RbNode) : Side → ℕ
  | .left => n.rbLeft
  | .right => n.rbRight

def RbNode.setChild (n : RbNode) (d : Side) (c : ℕ) : RbNode :=
  match d with
  | .left => { n with rbLeft := c }
  | .right => { n with rbRight := c }

/-- The nodes by their addresses, the root pointer, and the data that an augmented tree keeps. -/
structure RbSys (σ : Type) where
  node : ℕ → RbNode
  root : ℕ
  aug : σ

def rbRed : ℕ := 0

def rbBlack : ℕ := 1

/-- `pc & ~3` -/
def parentOfWord (pc : ℕ) : ℕ := pc &&& (uintRange - 4)

def colorOfWord (pc : ℕ) : ℕ := pc &&& 1

structure RbAugmentCallbacks (σ : Type) where
  propagate : ℕ → ℕ → RbSys σ → Option σ
  copy : ℕ → ℕ → RbSys σ → σ
  rotate : ℕ → ℕ → RbSys σ → σ

def dummyCallbacks (σ : Type) : RbAugmentCallbacks σ where
  propagate _ _ s := some s.aug
  copy _ _ s := s.aug
  rotate _ _ s := s.aug

section Model

variable {σ : Type}

namespace RbSys

variable (s : RbSys σ)

def setNode (x : ℕ) (f : RbNode → RbNode) : RbSys σ := { s with node := modify s.node x f }

def setChild (x : ℕ) (d : Side) (c : ℕ) : RbSys σ := s.setNode x (·.setChild d c)

def setWord (x pc : ℕ) : RbSys σ := s.setNode x fun n => { n with rbParentColor := pc }

def child (x : ℕ) (d : Side) : ℕ := (s.node x).child d

def word (x : ℕ) : ℕ := (s.node x).rbParentColor

end RbSys

def rbParent (s : RbSys σ) (x : ℕ) : ℕ := parentOfWord (s.word x)

def rbColor (s : RbSys σ) (x : ℕ) : ℕ := colorOfWord (s.word x)

def rbIsRed (s : RbSys σ) (x : ℕ) : Bool := rbColor s x == 0

def rbIsBlack (s : RbSys σ) (x : ℕ) : Bool := rbColor s x != 0

/-- The parent of a red node: its color is known to add nothing to the word. -/
def rbRedParent (s : RbSys σ) (red : ℕ) : ℕ := s.word red

def rbSetParent (s : RbSys σ) (x p : ℕ) : RbSys σ := s.setWord x (rbColor s x ||| p)

def rbSetParentColor (s : RbSys σ) (x p color : ℕ) : RbSys σ := s.setWord x (p ||| color)

def rbSetBlack (s : RbSys σ) (x : ℕ) : RbSys σ := s.setWord x (s.word x ||| rbBlack)

/-- Where the code guards the call with `if (tmp)`. -/
def setColorIf (s : RbSys σ) (tmp p color : ℕ) : RbSys σ :=
  if tmp ≠ 0 then rbSetParentColor s tmp p color else s

def __rbChangeChild (s : RbSys σ) (old new parent : ℕ) : RbSys σ :=
  if parent ≠ 0 then
    if s.child parent .left = old then s.setChild parent .left new
    else s.setChild parent .right new
  else { s with root := new }

def __rbRotateSetParents (s : RbSys σ) (old new color : ℕ) : RbSys σ :=
  let parent := rbParent s old
  let s := s.setWord new (s.word old)
  let s := rbSetParentColor s old new color
  __rbChangeChild s old new parent

section Insert

variable (rotate : ℕ → ℕ → RbSys σ → σ)

def augment (f : RbSys σ → σ) (s : RbSys σ) : RbSys σ := { s with aug := f s }

/-- The rotations of cases 2 and 3, where the parent hangs on the side `d` of the grandparent. The
two halves of the loop differ in the side only. -/
def insertRotate (d : Side) (node parent gparent : ℕ) (s : RbSys σ) : RbSys σ :=
  let tmp := s.child parent d.flip
  let (s, parent, tmp) :=
    if node = tmp then
      let tmp := s.child node d
      let s := s.setChild parent d.flip tmp
      let s := s.setChild node d parent
      let s := setColorIf s tmp parent rbBlack
      let s := rbSetParentColor s parent node rbRed
      let s := augment (rotate parent node) s
      (s, node, s.child node d.flip)
    else (s, parent, tmp)
  let s := s.setChild gparent d tmp
  let s := s.setChild parent d.flip gparent
  let s := setColorIf s tmp gparent rbBlack
  let s := __rbRotateSetParents s gparent parent rbRed
  augment (rotate gparent parent) s

def insertLoop : ℕ → ℕ → ℕ → RbSys σ → Option (RbSys σ)
  | 0, _, _, _ => none
  | n + 1, node, parent, s =>
    if parent = 0 then some (rbSetParentColor s node 0 rbBlack)
    else if rbIsBlack s parent then some s
    else
      let gparent := rbRedParent s parent
      let d := if parent ≠ s.child gparent .right then Side.left else Side.right
      let tmp := s.child gparent d.flip
      if tmp ≠ 0 ∧ rbIsRed s tmp then
        let s := rbSetParentColor s tmp gparent rbBlack
        let s := rbSetParentColor s parent gparent rbBlack
        let parent := rbParent s gparent
        let s := rbSetParentColor s gparent parent rbRed
        insertLoop n gparent parent s
      else some (insertRotate rotate d node parent gparent s)

def __rbInsert (n node : ℕ) (s : RbSys σ) : Option (RbSys σ) :=
  insertLoop rotate n node (rbRedParent s node) s

end Insert

/-- The word that `rb_link_node` is told to write the node to: the root pointer or a child pointer. -/
inductive RbLink where
  | root
  | child (parent : ℕ) (d : Side)
deriving DecidableEq, Repr

def RbLink.parent : RbLink → ℕ
  | .root => 0
  | .child p _ => p

def rbLinkNode (node : ℕ) (link : RbLink) (s : RbSys σ) : RbSys σ :=
  let s := s.setWord node link.parent
  let s := (s.setChild node .right 0).setChild node .left 0
  match link with
  | .root => { s with root := node }
  | .child p d => s.setChild p d node

def rbInsertColor (n node : ℕ) (s : RbSys σ) : Option (RbSys σ) :=
  __rbInsert (dummyCallbacks σ).rotate n node s

section Erase

variable (rotate : ℕ → ℕ → RbSys σ → σ)

/-- Case 1, where the sibling is red: the rotated state and the new sibling. -/
def eraseRotate (d : Side) (parent sibling : ℕ) (s : RbSys σ) : RbSys σ × ℕ :=
  let tmp1 := s.child sibling d
  let s := s.setChild parent d.flip tmp1
  let s := s.setChild sibling d parent
  let s := rbSetParentColor s tmp1 parent rbBlack
  let s := __rbRotateSetParents s parent sibling rbRed
  (augment (rotate parent sibling) s, tmp1)

/-- Case 3: the rotated state, the new `tmp1` and the new sibling. -/
def eraseInner (d : Side) (parent sibling tmp2 : ℕ) (s : RbSys σ) : RbSys σ × ℕ × ℕ :=
  let tmp1 := s.child tmp2 d.flip
  let s := s.setChild sibling d tmp1
  let s := s.setChild tmp2 d.flip sibling
  let s := s.setChild parent d.flip tmp2
  let s := setColorIf s tmp1 sibling rbBlack
  (augment (rotate sibling tmp2) s, sibling, tmp2)

/-- Case 4. -/
def eraseOuter (d : Side) (parent sibling tmp1 : ℕ) (s : RbSys σ) : RbSys σ :=
  let tmp2 := s.child sibling d
  let s := s.setChild parent d.flip tmp2
  let s := s.setChild sibling d parent
  let s := rbSetParentColor s tmp1 sibling rbBlack
  let s := if tmp2 ≠ 0 then rbSetParent s tmp2 parent else s
  let s := __rbRotateSetParents s parent sibling rbBlack
  augment (rotate parent sibling) s

/-- One turn of the loop from a black sibling on; `true` where the loop goes on at the parent. -/
def eraseTurn (d : Side) (parent sibling : ℕ) (s : RbSys σ) : RbSys σ × Bool :=
  let tmp1 := s.child sibling d.flip
  if tmp1 = 0 ∨ rbIsBlack s tmp1 then
    let tmp2 := s.child sibling d
    if tmp2 = 0 ∨ rbIsBlack s tmp2 then
      let s := rbSetParentColor s sibling parent rbRed
      if rbIsRed s parent then (rbSetBlack s parent, false) else (s, true)
    else
      let r := eraseInner rotate d parent sibling tmp2 s
      (eraseOuter rotate d parent r.2.2 r.2.1 r.1, false)
  else (eraseOuter rotate d parent sibling tmp1 s, false)

def ____rbEraseColor : ℕ → ℕ → ℕ → RbSys σ → Option (RbSys σ)
  | 0, _, _, _ => none
  | n + 1, node, parent, s =>
    let d := if node ≠ s.child parent .right then Side.left else Side.right
    let sibling := s.child parent d.flip
    let (s, sibling) := if rbIsRed s sibling then eraseRotate rotate d parent sibling s else (s, sibling)
    let r := eraseTurn rotate d parent sibling s
    if r.2 then
      let node := parent
      let parent := rbParent r.1 node
      if parent ≠ 0 then ____rbEraseColor n node parent r.1 else some r.1
    else some r.1

end Erase

section EraseNode

variable (cb : RbAugmentCallbacks σ)

def propagate (x stop : ℕ) (s : RbSys σ) : Option (RbSys σ) :=
  (cb.propagate x stop s).map fun a => { s with aug := a }

/-- The walk of case 3 to the successor: its parent and the successor. -/
def successorLoop (s : RbSys σ) : ℕ → ℕ → ℕ → Option (ℕ × ℕ)
  | 0, _, _ => none
  | n + 1, successor, tmp =>
    let parent := successor
    let successor := tmp
    let tmp := s.child tmp .left
    if tmp ≠ 0 then successorLoop s n successor tmp else some (parent, successor)

/-- Cases 2 and 3: the parent of the gap that the successor leaves, the successor and its child. -/
def detachSuccessor (n node child : ℕ) (s : RbSys σ) : Option (RbSys σ × ℕ × ℕ × ℕ) := do
  let tmp := s.child child .left
  if tmp = 0 then
    let s := augment (cb.copy node child) s
    pure (s, child, child, s.child child .right)
  else
    let (parent, successor) ← successorLoop s n child tmp
    let child2 := s.child successor .right
    let s := s.setChild parent .left child2
    let s := s.setChild successor .right child
    let s := rbSetParent s child successor
    let s := augment (cb.copy node successor) s
    let s ← propagate cb parent successor s
    pure (s, parent, successor, child2)

/-- The successor comes to the place of the node; the result is the node to rebalance at, or 0. -/
def placeSuccessor (node parent successor child2 : ℕ) (s : RbSys σ) : RbSys σ × ℕ :=
  let tmp := s.child node .left
  let s := s.setChild successor .left tmp
  let s := rbSetParent s tmp successor
  let pc := s.word node
  let s := __rbChangeChild s node successor (parentOfWord pc)
  if child2 ≠ 0 then
    let s := s.setWord successor pc
    (rbSetParentColor s child2 parent rbBlack, 0)
  else
    let pc2 := s.word successor
    let s := s.setWord successor pc
    (s, if colorOfWord pc2 ≠ 0 then parent else 0)

/-- The tree without the node, the node to rebalance at, or 0, and where the last `propagate` starts. -/
def eraseNode (n node : ℕ) (s : RbSys σ) : Option (RbSys σ × ℕ × ℕ) := do
  let child := s.child node .right
  let tmp := s.child node .left
  if tmp = 0 then
    let pc := s.word node
    let parent := parentOfWord pc
    let s := __rbChangeChild s node child parent
    if child ≠ 0 then pure (s.setWord child pc, 0, parent)
    else pure (s, if colorOfWord pc ≠ 0 then parent else 0, parent)
  else if child = 0 then
    let pc := s.word node
    let s := s.setWord tmp pc
    let parent := parentOfWord pc
    pure (__rbChangeChild s node tmp parent, 0, parent)
  else
    let (s, parent, successor, child2) ← detachSuccessor cb n node child s
    let r := placeSuccessor node parent successor child2 s
    pure (r.1, r.2, successor)

def __rbEraseAugmented (n node : ℕ) (s : RbSys σ) : Option (RbSys σ × ℕ) := do
  let (s, rebalance, tmp) ← eraseNode cb n node s
  let s ← propagate cb tmp 0 s
  pure (s, rebalance)

def rbEraseAugmented (n node : ℕ) (s : RbSys σ) : Option (RbSys σ) := do
  let (s, rebalance) ← __rbEraseAugmented cb n node s
  if rebalance ≠ 0 then ____rbEraseColor cb.rotate n 0 rebalance s else pure s

end EraseNode

def rbErase (n node : ℕ) (s : RbSys σ) : Option (RbSys σ) := rbEraseAugmented (dummyCallbacks σ) n node s

def rbReplaceNode (victim new : ℕ) (s : RbSys σ) : RbSys σ :=
  let parent := rbParent s victim
  let s := s.setNode new fun _ => s.node victim
  let left := s.child victim .left
  let s := if left ≠ 0 then rbSetParent s left new else s
  let right := s.child victim .right
  let s := if right ≠ 0 then rbSetParent s right new else s
  __rbChangeChild s victim new parent

section Walk

variable (s : RbSys σ)

/-- `while (n->rb_left) n = n->rb_left`, or the same to the right. -/
def deepest (d : Side) : ℕ → ℕ → Option ℕ
  | 0, _ => none
  | n + 1, x => if s.child x d ≠ 0 then deepest d n (s.child x d) else some x

def rbEnd (d : Side) (n : ℕ) : Option ℕ :=
  if s.root = 0 then some 0 else deepest s d n s.root

def rbFirst (n : ℕ) : Option ℕ := rbEnd s .left n

def rbLast (n : ℕ) : Option ℕ := rbEnd s .right n

def climb (d : Side) : ℕ → ℕ → Option ℕ
  | 0, _ => none
  | n + 1, x =>
    let parent := rbParent s x
    if parent ≠ 0 ∧ x = s.child parent d then climb d n parent else some parent

/-- The node behind `x` in the direction `d`. -/
def rbStep (d : Side) (n x : ℕ) : Option ℕ :=
  if s.word x = x then some 0
  else if s.child x d ≠ 0 then deepest s d.flip n (s.child x d)
  else climb s d n x

def rbNext (n x : ℕ) : Option ℕ := rbStep s .right n x

def rbPrev (n x : ℕ) : Option ℕ := rbStep s .left n x

def rbLeftDeepestNode : ℕ → ℕ → Option ℕ
  | 0, _ => none
  | n + 1, x =>
    if s.child x .left ≠ 0 then rbLeftDeepestNode n (s.child x .left)
    else if s.child x .right ≠ 0 then rbLeftDeepestNode n (s.child x .right)
    else some x

def rbNextPostorder (n x : ℕ) : Option ℕ :=
  if x = 0 then some 0
  else
    let parent := rbParent s x
    if parent ≠ 0 ∧ x = s.child parent .left ∧ s.child parent .right ≠ 0 then
      rbLeftDeepestNode s n (s.child parent .right)
    else some parent

def rbFirstPostorder (n : ℕ) : Option ℕ :=
  if s.root = 0 then some 0 else rbLeftDeepestNode s n s.root

end Walk

end Model

end OurOS.Rbtree
