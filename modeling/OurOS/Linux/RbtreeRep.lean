import Mathlib.Tactic.Abel
import OurOS.Linux.Rbtree

set_option linter.style.nameCheck false

namespace OurOS.Rbtree

open RedBlack RedBlack.ColorTree Cells

/-- What can stand in a pointer: the two lowest bits are free for the color. -/
def IsLink (x : ℕ) : Prop := x % 4 = 0 ∧ x < uintRange

def Aligned (x : ℕ) : Prop := x ≠ 0 ∧ IsLink x

instance (x : ℕ) : Decidable (IsLink x) := inferInstanceAs (Decidable (_ ∧ _))

instance (x : ℕ) : Decidable (Aligned x) := inferInstanceAs (Decidable (_ ∧ _))

def bit : Color → ℕ
  | .red => rbRed
  | .black => rbBlack

def record (d : Side) (w near far : ℕ) : RbNode :=
  match d with
  | .left => ⟨w, far, near⟩
  | .right => ⟨w, near, far⟩

def rootOf : ColorTree ℕ → ℕ
  | .nil => 0
  | .node _ _ x _ => x

def parentOf : List (Frame ℕ) → ℕ
  | [] => 0
  | f :: _ => f.key

def topOf (q : ℕ) : List (Frame ℕ) → ℕ
  | [] => q
  | f :: path => topOf f.key path

/-- The cells of the tree `t` below the parent `p`. -/
def treeCells (p : ℕ) : ColorTree ℕ → Multiset (ℕ × RbNode)
  | .nil => 0
  | .node c l x r =>
    cell x (record .left (p ||| bit c) (rootOf l) (rootOf r)) + (treeCells x l + treeCells x r)

/-- The cells around a subtree whose root is `q`. -/
def pathCells (q : ℕ) : List (Frame ℕ) → Multiset (ℕ × RbNode)
  | [] => 0
  | f :: path =>
    cell f.key (record f.side (parentOf path ||| bit f.color) q (rootOf f.sib)) +
      (treeCells f.key f.sib + pathCells f.key path)

section Words

variable {p : ℕ} {c : Color}

theorem isLink_zero : IsLink 0 := by decide

theorem Aligned.isLink {x : ℕ} (h : Aligned x) : IsLink x := h.2

theorem bit_lt (c : Color) : bit c < 2 := by
  cases c <;> decide

theorem or_bit (hp : IsLink p) (c : Color) : p ||| bit c = p + bit c := by
  have h4 : p = 4 * (p / 4) := by
    have := hp.1
    omega
  have hlt : bit c < 2 ^ 2 := (bit_lt c).trans (by decide)
  rw [h4, show 4 * (p / 4) = (p / 4) <<< 2 by rw [Nat.shiftLeft_eq, Nat.mul_comm],
    ← Nat.shiftLeft_add_eq_or_of_lt hlt]

theorem parentOfWord_or (hp : IsLink p) (c : Color) : parentOfWord (p ||| bit c) = p := by
  have h1 := hp.1
  have h2 := hp.2
  have h3 := bit_lt c
  rw [parentOfWord, or_bit hp]
  have hr : uintRange = 2 ^ 32 := rfl
  have h := lowerAlign_eq (x := p + bit c) (k := 2) (by omega) (by decide)
  rw [lowerAlign] at h
  rw [show (4 : ℕ) = 2 ^ 2 from rfl, h]
  omega

theorem colorOfWord_or (hp : IsLink p) (c : Color) : colorOfWord (p ||| bit c) = bit c := by
  have h1 := hp.1
  have h3 := bit_lt c
  rw [colorOfWord, or_bit hp, Nat.and_one_is_mod]
  omega

theorem bit_eq_zero : bit c = 0 ↔ c = .red := by
  cases c <;> decide

theorem or_red (p : ℕ) : p ||| bit .red = p := Nat.or_zero p

end Words

section Records

variable {d : Side} {w w' a b c : ℕ}

@[simp] theorem child_record : (record d w a b).child d = a := by
  cases d <;> rfl

@[simp] theorem child_flip_record : (record d w a b).child d.flip = b := by
  cases d <;> rfl

@[simp] theorem setChild_record : (record d w a b).setChild d c = record d w c b := by
  cases d <;> rfl

@[simp] theorem setChild_flip_record : (record d w a b).setChild d.flip c = record d w a c := by
  cases d <;> rfl

@[simp] theorem word_record : (record d w a b).rbParentColor = w := by
  cases d <;> rfl

@[simp] theorem setWord_record :
    { record d w a b with rbParentColor := w' } = record d w' a b := by
  cases d <;> rfl

theorem record_flip : record d.flip w a b = record d w b a := by
  cases d <;> rfl

end Records

section Shape

variable {t : ColorTree ℕ} {path : List (Frame ℕ)} {p : ℕ}

theorem parentOf_cons (f : Frame ℕ) (path : List (Frame ℕ)) : parentOf (f :: path) = f.key := rfl

@[simp] theorem rootOf_nil : rootOf .nil = 0 := rfl

@[simp] theorem rootOf_join (d : Side) (c : Color) (t : ColorTree ℕ) (x : ℕ) (u : ColorTree ℕ) :
    rootOf (join d c t x u) = x := by
  cases d <;> rfl

@[simp] theorem rootOf_paint (c : Color) (t : ColorTree ℕ) : rootOf (t.paint c) = rootOf t := by
  cases t <;> rfl

theorem treeCells_join (p : ℕ) (d : Side) (c : Color) (t : ColorTree ℕ) (x : ℕ) (u : ColorTree ℕ) :
    treeCells p (join d c t x u) =
      cell x (record d (p ||| bit c) (rootOf t) (rootOf u)) + (treeCells x t + treeCells x u) := by
  cases d with
  | left => rfl
  | right => exact congrArg (_ + ·) (add_comm _ _)

theorem rootOf_plug (t : ColorTree ℕ) (path : List (Frame ℕ)) :
    rootOf (plug t path) = topOf (rootOf t) path := by
  induction path generalizing t with
  | nil => rfl
  | cons f path ih => rw [plug, ih, rootOf_join, topOf]

theorem treeCells_plug (t : ColorTree ℕ) (path : List (Frame ℕ)) :
    treeCells 0 (plug t path) = treeCells (parentOf path) t + pathCells (rootOf t) path := by
  induction path generalizing t with
  | nil => exact (add_zero _).symm
  | cons f path ih =>
    rw [plug, ih, treeCells_join, rootOf_join, pathCells, parentOf]
    abel

end Shape

variable {σ : Type} {s : RbSys σ} {t u : ColorTree ℕ} {path : List (Frame ℕ)} {p q x y old new : ℕ}
  {c c' : Color} {d : Side} {v : RbNode} {m M : Multiset (ℕ × RbNode)}

/-- The memory holds the tree `plug t path`, looked at from the subtree `t`, and beside it `m`. -/
structure Focus (s : RbSys σ) (t : ColorTree ℕ) (path : List (Frame ℕ)) (m : Multiset (ℕ × RbNode)) :
    Prop where
  holds : Holds Aligned s.node (treeCells (parentOf path) t + pathCells (rootOf t) path + m)
  root : s.root = topOf (rootOf t) path

theorem focus_plug : Focus s (plug t path) [] m ↔ Focus s t path m := by
  constructor
  · rintro ⟨h1, h2⟩
    rw [parentOf, treeCells_plug, pathCells, add_zero] at h1
    rw [topOf, rootOf_plug] at h2
    exact ⟨h1, h2⟩
  · rintro ⟨h1, h2⟩
    refine ⟨?_, ?_⟩
    · rw [parentOf, treeCells_plug, pathCells, add_zero]
      exact h1
    · rw [topOf, rootOf_plug]
      exact h2

theorem focus_up {f : Frame ℕ} :
    Focus s (join f.side f.color t f.key f.sib) path m ↔ Focus s t (f :: path) m := by
  rw [← focus_plug, ← @focus_plug _ s t (f :: path), plug]

section Read

theorem holds_word (h : Holds Aligned s.node (cell x (record d q old new) + M)) : s.word x = q := by
  rw [RbSys.word, h.read, word_record]

theorem holds_child (h : Holds Aligned s.node (cell x (record d q old new) + M)) :
    s.child x d = old ∧ s.child x d.flip = new := by
  rw [RbSys.child, RbSys.child, h.read]
  exact ⟨child_record, child_flip_record⟩

theorem holds_parent (h : Holds Aligned s.node (cell x (record d (p ||| bit c) old new) + M))
    (hp : IsLink p) : rbParent s x = p ∧ rbColor s x = bit c := by
  rw [rbParent, rbColor, holds_word h]
  exact ⟨parentOfWord_or hp c, colorOfWord_or hp c⟩

theorem rootOf_valid (h : Holds Aligned s.node (treeCells p t + M)) (ht : t ≠ .nil) :
    Aligned (rootOf t) := by
  cases t with
  | nil => exact absurd rfl ht
  | node c l x r =>
    rw [treeCells, add_assoc] at h
    exact h.valid

theorem rootOf_ne (h : Holds Aligned s.node (cell x v + (treeCells p t + M))) : rootOf t ≠ x := by
  cases t with
  | nil => exact fun he => h.valid.1 he.symm
  | node c l y r =>
    rw [treeCells, add_assoc] at h
    exact h.ne

theorem parentOf_isLink (h : Holds Aligned s.node (pathCells q path + M)) : IsLink (parentOf path) := by
  cases path with
  | nil => exact isLink_zero
  | cons f path =>
    rw [pathCells, add_assoc] at h
    exact h.valid.isLink

theorem parentOf_eq_zero (h : Holds Aligned s.node (pathCells q path + M)) :
    parentOf path = 0 ↔ path = [] := by
  cases path with
  | nil => exact iff_of_true rfl rfl
  | cons f path =>
    rw [pathCells, add_assoc] at h
    exact iff_of_false h.valid.1 (by simp)

theorem color_red_iff (h : Holds Aligned s.node (treeCells p t + M)) (hp : IsLink p) :
    (rootOf t ≠ 0 ∧ rbIsRed s (rootOf t) = true) ↔ t.color = .red := by
  cases t with
  | nil => simp
  | node c l x r =>
    rw [treeCells, add_assoc] at h
    rw [rootOf, rbIsRed, (holds_parent h hp).2, beq_iff_eq, bit_eq_zero]
    exact and_iff_right h.valid.1

theorem color_black_iff (h : Holds Aligned s.node (treeCells p t + M)) (hp : IsLink p) :
    (rootOf t = 0 ∨ rbIsBlack s (rootOf t) = true) ↔ t.color = .black := by
  have h1 := color_red_iff h hp
  rw [rbIsRed, beq_iff_eq] at h1
  rw [rbIsBlack, bne_iff_ne, ← not_iff_not, not_or, not_not]
  refine h1.trans ?_
  cases t.color <;> simp

end Read

section Store

theorem setChild_holds {a b : ℕ} {w : ℕ}
    (h : Holds Aligned s.node (cell x (record d w a b) + M)) (y : ℕ) :
    Holds Aligned (s.setChild x d y).node (cell x (record d w y b) + M) ∧
      Holds Aligned (s.setChild x d.flip y).node (cell x (record d w a y) + M) := by
  have h1 := h.write (·.setChild d y)
  have h2 := h.write (·.setChild d.flip y)
  rw [setChild_record] at h1
  rw [setChild_flip_record] at h2
  exact ⟨h1, h2⟩

theorem setWord_holds {a b w : ℕ} (h : Holds Aligned s.node (cell x (record d w a b) + M)) (w' : ℕ) :
    Holds Aligned (s.setWord x w').node (cell x (record d w' a b) + M) := by
  have h1 := h.write fun n => { n with rbParentColor := w' }
  rw [setWord_record] at h1
  exact h1

theorem setColorIf_holds (h : Holds Aligned s.node (treeCells p t + M)) (q : ℕ) (c : Color) :
    Holds Aligned (setColorIf s (rootOf t) q (bit c)).node (treeCells q (t.paint c) + M) := by
  cases t with
  | nil => exact h
  | node c' l x r =>
    rw [treeCells, add_assoc] at h
    rw [setColorIf, rootOf, if_pos h.valid.1, paint, treeCells, add_assoc]
    exact setWord_holds h _

theorem setColor_holds (h : Holds Aligned s.node (treeCells p t + M)) (ht : t ≠ .nil) (q : ℕ)
    (c : Color) : Holds Aligned (rbSetParentColor s (rootOf t) q (bit c)).node
      (treeCells q (t.paint c) + M) := by
  have h1 := setColorIf_holds h q c
  rwa [setColorIf, if_pos (rootOf_valid h ht).1] at h1

theorem setParentIf_holds (h : Holds Aligned s.node (treeCells p t + M)) (hp : IsLink p) (q : ℕ) :
    Holds Aligned (if rootOf t ≠ 0 then rbSetParent s (rootOf t) q else s).node
      (treeCells q t + M) := by
  cases t with
  | nil => exact h
  | node c l x r =>
    rw [treeCells, add_assoc] at h
    rw [rootOf, if_pos h.valid.1, rbSetParent, (holds_parent h hp).2, Nat.lor_comm, treeCells, add_assoc]
    exact setWord_holds h _

@[simp] theorem setColorIf_root (s : RbSys σ) (x p k : ℕ) : (setColorIf s x p k).root = s.root := by
  rw [setColorIf]
  split_ifs <;> rfl

theorem changeChild_holds (h : Holds Aligned s.node (cell old v + (pathCells old path + M)))
    (hr : s.root = topOf old path) (new : ℕ) :
    Holds Aligned (__rbChangeChild s old new (parentOf path)).node
      (cell old v + (pathCells new path + M)) ∧
    (__rbChangeChild s old new (parentOf path)).root = topOf new path := by
  cases path with
  | nil => exact ⟨h, rfl⟩
  | cons f path =>
    obtain ⟨d, c, a, u⟩ := f
    have h1 : Holds Aligned s.node (cell a (record d (parentOf path ||| bit c) old (rootOf u)) +
        (cell old v + (treeCells a u + (pathCells a path + M)))) := h.of_eq (by
      rw [pathCells]
      abel)
    have hne : rootOf u ≠ old := rootOf_ne (h1.right)
    have h2 := setChild_holds h1 new
    have ha : a ≠ 0 := h1.valid.1
    rw [__rbChangeChild, parentOf, if_pos ha]
    have hdone : Holds Aligned (s.setChild a d new).node
        (cell old v + (pathCells new (⟨d, c, a, u⟩ :: path) + M)) := h2.1.of_eq (by
      rw [pathCells]
      abel)
    obtain ⟨h3, h4⟩ := holds_child h1
    cases d with
    | left =>
      rw [if_pos h3]
      exact ⟨hdone, hr⟩
    | right =>
      dsimp only [Side.flip] at h4
      rw [if_neg (fun he => hne (h4.symm.trans he))]
      exact ⟨hdone, hr⟩

/-- The first half of a rotation: `new` comes between `old` and what was below `new`. -/
theorem link_holds {w w' a b e n' : ℕ}
    (h : Holds Aligned s.node (cell old (record d w n' e) + (cell new (record d w' a b) + M))) :
    Holds Aligned ((s.setChild old d b).setChild new d.flip old).node
      (cell old (record d w b e) + (cell new (record d w' a old) + M)) := by
  have h1 := (setChild_holds h b).1
  rw [add_left_comm] at h1
  have h2 := (setChild_holds h1 old).2
  rwa [add_left_comm] at h2

theorem rotateSetParents_holds {a b a' b' w : ℕ} {e : Color}
    (h : Holds Aligned s.node (cell old (record d (parentOf path ||| bit c) a b) +
      (cell new (record d w a' b') + (pathCells old path + M))))
    (hr : s.root = topOf old path) :
    Holds Aligned (__rbRotateSetParents s old new (bit e)).node
      (cell old (record d (new ||| bit e) a b) +
        (cell new (record d (parentOf path ||| bit c) a' b') + (pathCells new path + M))) ∧
    (__rbRotateSetParents s old new (bit e)).root = topOf new path := by
  have hp : IsLink (parentOf path) := parentOf_isLink h.right.right
  have hparent := (holds_parent h hp).1
  have hword := holds_word h
  have h1 := h
  rw [add_left_comm] at h1
  have h2 := setWord_holds h1 (s.word old)
  rw [hword, add_left_comm] at h2
  have h3 := setWord_holds h2 (new ||| bit e)
  have h4 : Holds Aligned (rbSetParentColor (s.setWord new (s.word old)) old new (bit e)).node
      (cell old (record d (new ||| bit e) a b) + (pathCells old path +
        (cell new (record d (parentOf path ||| bit c) a' b') + M))) := by
    rw [hword]
    exact h3.of_eq (by abel)
  obtain ⟨h5, h6⟩ := changeChild_holds h4 hr new
  rw [__rbRotateSetParents, hparent]
  exact ⟨h5.of_eq (by abel), h6⟩

end Store

end OurOS.Rbtree
