import Mathlib.Algebra.Order.Ring.Nat
import Mathlib.Data.List.Basic
import Mathlib.Data.Nat.Log
import Mathlib.Tactic.Common

namespace RedBlack

inductive Color where
  | red
  | black
deriving DecidableEq, Repr

inductive Side where
  | left
  | right
deriving DecidableEq, Repr

def Side.flip : Side → Side
  | .left => .right
  | .right => .left

@[simp] theorem Side.flip_flip (d : Side) : d.flip.flip = d := by
  cases d <;> rfl

@[simp] theorem Side.flip_ne (d : Side) : d.flip ≠ d := by
  cases d <;> simp [Side.flip]

theorem Side.eq_flip_of_ne {d e : Side} (h : e ≠ d) : e = d.flip := by
  cases d <;> cases e <;> simp_all [Side.flip]

inductive ColorTree (α : Type) where
  | nil
  | node (c : Color) (l : ColorTree α) (a : α) (r : ColorTree α)
deriving DecidableEq, Repr

/-- A step of the way from a node up to the root: the side that the way comes from, the parent, and
the subtree on its other side. -/
structure Frame (α : Type) where
  side : Side
  color : Color
  key : α
  sib : ColorTree α
deriving DecidableEq, Repr

variable {α : Type}

namespace ColorTree

def color : ColorTree α → Color
  | nil => .black
  | node c _ _ _ => c

def paint (c : Color) : ColorTree α → ColorTree α
  | nil => nil
  | node _ l a r => node c l a r

def child : ColorTree α → Side → ColorTree α
  | nil, _ => nil
  | node _ l _ _, .left => l
  | node _ _ _ r, .right => r

/-- The node with `t` on the side `d` and `u` on the other. -/
def join : Side → Color → ColorTree α → α → ColorTree α → ColorTree α
  | .left, c, t, a, u => node c t a u
  | .right, c, t, a, u => node c u a t

def inorder : ColorTree α → List α
  | nil => []
  | node _ l a r => l.inorder ++ a :: r.inorder

def height : ColorTree α → ℕ
  | nil => 0
  | node _ l _ r => max l.height r.height + 1

/-- No red node has a red child, and all ways down have `n` black nodes. -/
inductive Balanced : ColorTree α → ℕ → Prop
  | nil : Balanced nil 0
  | red {l r : ColorTree α} {a : α} {n : ℕ} (hl : Balanced l n) (hr : Balanced r n)
      (cl : l.color = .black) (cr : r.color = .black) : Balanced (node .red l a r) n
  | black {l r : ColorTree α} {a : α} {n : ℕ} (hl : Balanced l n) (hr : Balanced r n) :
      Balanced (node .black l a r) (n + 1)

def IsRedBlack (t : ColorTree α) : Prop := t.color = .black ∧ ∃ n, Balanced t n

@[simp] theorem color_nil : (nil : ColorTree α).color = .black := rfl

@[simp] theorem color_node (c : Color) (l : ColorTree α) (a : α) (r : ColorTree α) :
    (node c l a r).color = c := rfl

@[simp] theorem color_join (d : Side) (c : Color) (t : ColorTree α) (a : α) (u : ColorTree α) :
    (join d c t a u).color = c := by
  cases d <;> rfl

@[simp] theorem paint_join (d : Side) (c c' : Color) (t : ColorTree α) (a : α) (u : ColorTree α) :
    (join d c t a u).paint c' = join d c' t a u := by
  cases d <;> rfl

@[simp] theorem child_join (d : Side) (c : Color) (t : ColorTree α) (a : α) (u : ColorTree α) :
    (join d c t a u).child d = t := by
  cases d <;> rfl

@[simp] theorem child_flip_join (d : Side) (c : Color) (t : ColorTree α) (a : α) (u : ColorTree α) :
    (join d c t a u).child d.flip = u := by
  cases d <;> rfl

@[simp] theorem inorder_paint (c : Color) (t : ColorTree α) : (t.paint c).inorder = t.inorder := by
  cases t <;> rfl

theorem paint_color (t : ColorTree α) : t.paint t.color = t := by
  cases t <;> rfl

theorem paint_of_color {c : Color} {t : ColorTree α} (h : t.color = c) : t.paint c = t := by
  rw [← h, paint_color]

theorem join_ne_nil (d : Side) (c : Color) (t : ColorTree α) (a : α) (u : ColorTree α) :
    join d c t a u ≠ nil := by
  cases d <;> simp [join]

theorem exists_join (d : Side) {t : ColorTree α} (h : t ≠ nil) :
    ∃ c u a v, t = join d c u a v := by
  cases t with
  | nil => exact absurd rfl h
  | node c l a r =>
    cases d with
    | left => exact ⟨c, l, a, r, rfl⟩
    | right => exact ⟨c, r, a, l, rfl⟩

theorem inorder_join (d : Side) (c : Color) (t : ColorTree α) (a : α) (u : ColorTree α) :
    (join d c t a u).inorder = match d with
      | .left => t.inorder ++ a :: u.inorder
      | .right => u.inorder ++ a :: t.inorder := by
  cases d <;> rfl

theorem inorder_rotate (d : Side) (c c' e e' : Color) (t u v : ColorTree α) (a b : α) :
    (join d c (join d c' t a u) b v).inorder =
      (join d.flip e (join d.flip e' v b u) a t).inorder := by
  cases d <;> simp [inorder_join, Side.flip]

namespace Balanced

variable {t u : ColorTree α} {a : α} {n : ℕ} {d : Side} {c : Color}

theorem join_red (ht : Balanced t n) (hu : Balanced u n) (ct : t.color = .black)
    (cu : u.color = .black) : Balanced (join d .red t a u) n := by
  cases d with
  | left => exact .red ht hu ct cu
  | right => exact .red hu ht cu ct

theorem join_black (ht : Balanced t n) (hu : Balanced u n) :
    Balanced (join d .black t a u) (n + 1) := by
  cases d with
  | left => exact .black ht hu
  | right => exact .black hu ht

theorem of_join_red (h : Balanced (join d .red t a u) n) :
    Balanced t n ∧ Balanced u n ∧ t.color = .black ∧ u.color = .black := by
  cases d with
  | left =>
    cases h with
    | red hl hr cl cr => exact ⟨hl, hr, cl, cr⟩
  | right =>
    cases h with
    | red hl hr cl cr => exact ⟨hr, hl, cr, cl⟩

theorem of_join_black (h : Balanced (join d .black t a u) n) :
    ∃ m, n = m + 1 ∧ Balanced t m ∧ Balanced u m := by
  cases d with
  | left =>
    cases h with
    | black hl hr => exact ⟨_, rfl, hl, hr⟩
  | right =>
    cases h with
    | black hl hr => exact ⟨_, rfl, hr, hl⟩

theorem paint_black (h : Balanced t n) : ∃ m, Balanced (t.paint .black) m := by
  cases h with
  | nil => exact ⟨0, .nil⟩
  | red hl hr => exact ⟨_, .black hl hr⟩
  | black hl hr => exact ⟨_, .black hl hr⟩

theorem paint_red (h : Balanced (join d .black t a u) (n + 1)) (ct : t.color = .black)
    (cu : u.color = .black) : Balanced (join d .red t a u) n := by
  obtain ⟨m, hm, ht, hu⟩ := h.of_join_black
  obtain rfl := Nat.succ.inj hm
  exact ht.join_red hu ct cu

theorem ne_nil (h : Balanced t (n + 1)) : t ≠ ColorTree.nil := by
  rintro rfl
  cases h

end Balanced

end ColorTree

open ColorTree

/-- The color above a node; it is red above the root, which has to be black. -/
def parentColor : List (Frame α) → Color
  | [] => .red
  | f :: _ => f.color

def plug : ColorTree α → List (Frame α) → ColorTree α
  | t, [] => t
  | t, f :: path => plug (join f.side f.color t f.key f.sib) path

def before : List (Frame α) → List α
  | [] => []
  | f :: path => match f.side with
    | .left => before path
    | .right => before path ++ f.sib.inorder ++ [f.key]

def after : List (Frame α) → List α
  | [] => []
  | f :: path => match f.side with
    | .left => f.key :: f.sib.inorder ++ after path
    | .right => after path

/-- What a balanced tree needs around a subtree with `n` black nodes on its ways down. -/
inductive PathBalanced : List (Frame α) → ℕ → Prop
  | nil {n : ℕ} : PathBalanced [] n
  | red {d : Side} {a : α} {u : ColorTree α} {path : List (Frame α)} {n : ℕ} (hu : Balanced u n)
      (cu : u.color = .black) (hp : parentColor path = .black) (h : PathBalanced path n) :
      PathBalanced (⟨d, .red, a, u⟩ :: path) n
  | black {d : Side} {a : α} {u : ColorTree α} {path : List (Frame α)} {n : ℕ} (hu : Balanced u n)
      (h : PathBalanced path (n + 1)) : PathBalanced (⟨d, .black, a, u⟩ :: path) n

section Plug

variable {t : ColorTree α} {path : List (Frame α)} {n : ℕ}

theorem ColorTree.Balanced.two_pow_le (h : Balanced t n) : 2 ^ n ≤ t.inorder.length + 1 := by
  induction h with
  | nil => exact le_rfl
  | red hl hr _ _ ihl ihr =>
    simp only [inorder, List.length_append, List.length_cons]
    omega
  | black hl hr ihl ihr =>
    simp only [inorder, List.length_append, List.length_cons, Nat.pow_succ]
    omega

theorem ColorTree.Balanced.height_le (h : Balanced t n) :
    t.height ≤ 2 * n + if t.color = .red then 1 else 0 := by
  induction h with
  | nil => exact le_rfl
  | red hl hr cl cr ihl ihr =>
    rw [cl] at ihl
    rw [cr] at ihr
    simp only [height, color_node, reduceCtorEq, if_false, if_true] at ihl ihr ⊢
    omega
  | @black l r _ _ hl hr ihl ihr =>
    simp only [height, color_node, reduceCtorEq, if_false] at ihl ihr ⊢
    split_ifs at ihl ihr <;> omega

theorem IsRedBlack.height_le (h : IsRedBlack t) :
    t.height ≤ 2 * Nat.log 2 (t.inorder.length + 1) := by
  obtain ⟨hc, n, hn⟩ := h
  have h1 := hn.height_le
  rw [hc, if_neg (by decide)] at h1
  have h2 := Nat.le_log_of_pow_le (by decide) hn.two_pow_le
  omega

theorem inorder_plug (t : ColorTree α) (path : List (Frame α)) :
    (plug t path).inorder = before path ++ t.inorder ++ after path := by
  induction path generalizing t with
  | nil => simp [plug, before, after]
  | cons f path ih =>
    obtain ⟨d, c, a, u⟩ := f
    rw [plug, ih]
    cases d <;> simp [before, after, inorder_join]

theorem plug_ne_nil {t : ColorTree α} (ht : t ≠ nil) (path : List (Frame α)) : plug t path ≠ nil := by
  induction path generalizing t with
  | nil => exact ht
  | cons f path ih => exact ih (join_ne_nil _ _ _ _ _)

theorem height_add_length_le (t : ColorTree α) (path : List (Frame α)) :
    t.height + path.length ≤ (plug t path).height := by
  induction path generalizing t with
  | nil => exact le_refl _
  | cons f path ih =>
    have h := ih (join f.side f.color t f.key f.sib)
    have hj : t.height + 1 ≤ (join f.side f.color t f.key f.sib).height := by
      cases f.side <;> simp only [join, height] <;> omega
    rw [List.length_cons, plug]
    omega

theorem plug_append (t : ColorTree α) (p q : List (Frame α)) : plug t (p ++ q) = plug (plug t p) q := by
  induction p generalizing t with
  | nil => rfl
  | cons f p ih => exact ih _

theorem before_append (p q : List (Frame α)) : before (p ++ q) = before q ++ before p := by
  induction p with
  | nil => simp [before]
  | cons f p ih =>
    obtain ⟨d, c, a, u⟩ := f
    cases d <;> simp [before, ih]

theorem after_append (p q : List (Frame α)) : after (p ++ q) = after p ++ after q := by
  induction p with
  | nil => rfl
  | cons f p ih =>
    obtain ⟨d, c, a, u⟩ := f
    cases d <;> simp [after, ih]

theorem pathBalanced_rekey {p q : List (Frame α)} {d : Side} {c : Color} {a b : α} {u : ColorTree α}
    (h : PathBalanced (p ++ ⟨d, c, a, u⟩ :: q) n) : PathBalanced (p ++ ⟨d, c, b, u⟩ :: q) n := by
  induction p generalizing n with
  | nil =>
    cases h with
    | red hu cu hp h => exact .red hu cu hp h
    | black hu h => exact .black hu h
  | cons f p ih =>
    cases h with
    | red hu cu hp h =>
      refine .red hu cu ?_ (ih h)
      cases p <;> exact hp
    | black hu h => exact .black hu (ih h)

theorem PathBalanced.sib {f : Frame α} (h : PathBalanced (f :: path) n) : Balanced f.sib n := by
  cases h with
  | red hu => exact hu
  | black hu => exact hu

theorem PathBalanced.tail {f : Frame α} (h : PathBalanced (f :: path) n) :
    ∃ k, PathBalanced path k := by
  cases h with
  | red _ _ _ h => exact ⟨_, h⟩
  | black _ h => exact ⟨_, h⟩

theorem plug_isRedBlack (hp : PathBalanced path n) (ht : Balanced t n)
    (hc : parentColor path = .red → t.color = .black) : IsRedBlack (plug t path) := by
  induction hp generalizing t with
  | nil => exact ⟨hc rfl, _, ht⟩
  | red hu cu hb h ih =>
    exact ih (ht.join_red hu (hc rfl) cu) fun hr => absurd (hr.symm.trans hb) (by decide)
  | black hu h ih => exact ih (ht.join_black hu) fun _ => by simp

theorem pathBalanced_of_plug (h : IsRedBlack (plug t path)) :
    ∃ n, PathBalanced path n ∧ Balanced t n ∧ (parentColor path = .red → t.color = .black) := by
  induction path generalizing t with
  | nil =>
    obtain ⟨hc, n, hn⟩ := h
    exact ⟨n, .nil, hn, fun _ => hc⟩
  | cons f path ih =>
    obtain ⟨d, c, a, u⟩ := f
    obtain ⟨n, h1, h2, h3⟩ := ih h
    cases c with
    | red =>
      obtain ⟨ht, hu, ct, cu⟩ := h2.of_join_red
      have hb : parentColor path = .black := by
        cases hpc : parentColor path with
        | red => exact absurd (h3 hpc) (by simp)
        | black => rfl
      exact ⟨n, .red hu cu hb h1, ht, fun _ => ct⟩
    | black =>
      obtain ⟨m, rfl, ht, hu⟩ := h2.of_join_black
      exact ⟨m, .black hu h1, ht, fun hr => absurd hr (by simp [parentColor])⟩

theorem isRedBlack_rekey {l r : ColorTree α} {c : Color} {a : α}
    (h : IsRedBlack (plug (node c l a r) path)) (b : α) : IsRedBlack (plug (node c l b r) path) := by
  obtain ⟨n, hp, hn, hc⟩ := pathBalanced_of_plug h
  refine plug_isRedBlack hp ?_ hc
  cases hn with
  | red hl hr cl cr => exact .red hl hr cl cr
  | black hl hr => exact .black hl hr

end Plug

/-- The rotation at the grandparent, after one at the parent where the node hangs on the inside. -/
def settleInsert (t : ColorTree α) (p g : Frame α) : ColorTree α :=
  if p.side = g.side then
    join g.side g.color t p.key (join g.side .red (p.sib.paint .black) g.key g.sib)
  else match t with
    | nil => plug t [p, g]
    | node c l a r =>
      join g.side g.color
        (join g.side .red p.sib p.key (((node c l a r).child g.side).paint .black)) a
        (join g.side .red (((node c l a r).child g.side.flip).paint .black) g.key g.sib)

/-- The colors are repaired on the way up from the red node `t`. -/
def fixInsert : ColorTree α → List (Frame α) → ColorTree α
  | t, [] => t.paint .black
  | t, [p] => plug t [p]
  | t, p :: g :: path =>
    if p.color = .black then plug t (p :: g :: path)
    else if g.sib.color = .red then
      fixInsert (join g.side .red (join p.side .black t p.key p.sib) g.key (g.sib.paint .black)) path
    else plug (settleInsert t p g) path

section Insert

variable {t : ColorTree α} {p g : Frame α} {path : List (Frame α)} {n : ℕ}

theorem settleInsert_outer (hs : p.side = g.side) : settleInsert t p g =
    join g.side g.color t p.key (join g.side .red (p.sib.paint .black) g.key g.sib) := by
  unfold settleInsert
  rw [if_pos hs]

theorem settleInsert_inner (hs : p.side ≠ g.side) (c : Color) (u : ColorTree α) (a : α) (v : ColorTree α) :
    settleInsert (join g.side c u a v) p g =
      join g.side g.color (join g.side .red p.sib p.key (u.paint .black)) a
        (join g.side .red (v.paint .black) g.key g.sib) := by
  unfold settleInsert
  rw [if_neg hs]
  cases g.side <;> rfl

theorem inorder_settleInsert (ht : t ≠ .nil) (p g : Frame α) :
    (settleInsert t p g).inorder = (plug t [p, g]).inorder := by
  by_cases hs : p.side = g.side
  · rw [settleInsert_outer hs]
    simp only [plug, hs]
    cases g.side <;> simp [inorder_join]
  · obtain ⟨c, u, a, v, rfl⟩ := exists_join g.side ht
    rw [settleInsert_inner hs]
    simp only [plug, Side.eq_flip_of_ne hs]
    cases g.side <;> simp [inorder_join, Side.flip]

theorem inorder_fixInsert (ht : t ≠ .nil) (path : List (Frame α)) :
    (fixInsert t path).inorder = (plug t path).inorder := by
  induction t, path using fixInsert.induct with
  | case1 t => simp [fixInsert, plug]
  | case2 t p => rfl
  | case3 t p g path hb => rw [fixInsert, if_pos hb]
  | case4 t p g path hb hr ih =>
    rw [fixInsert, if_neg hb, if_pos hr, ih (join_ne_nil _ _ _ _ _)]
    simp only [plug, inorder_plug, inorder_join, inorder_paint]
  | case5 t p g path hb hr =>
    rw [fixInsert, if_neg hb, if_neg hr, inorder_plug, inorder_settleInsert ht, ← inorder_plug]
    rfl

theorem settleInsert_balanced (ht : Balanced t n) (ct : t.color = .red) (hp : Balanced p.sib n)
    (cp : p.sib.color = .black) (hg : Balanced g.sib n) (cg : g.color = .black)
    (cs : g.sib.color = .black) :
    Balanced (settleInsert t p g) (n + 1) ∧ (settleInsert t p g).color = .black := by
  by_cases hs : p.side = g.side
  · rw [settleInsert_outer hs, cg, paint_of_color cp]
    exact ⟨ht.join_black (hp.join_red hg cp cs), color_join ..⟩
  · have hne : t ≠ .nil := by
      rintro rfl
      cases ct
    obtain ⟨c, u, x, v, rfl⟩ := exists_join g.side hne
    obtain rfl : c = .red := (color_join ..).symm.trans ct
    obtain ⟨hu, hv, cu, cv⟩ := ht.of_join_red
    rw [settleInsert_inner hs, cg, paint_of_color cu, paint_of_color cv]
    exact ⟨(hp.join_red hu cp cu).join_black (hv.join_red hg cv cs), color_join ..⟩

theorem fixInsert_isRedBlack (ht : Balanced t n) (ct : t.color = .red) (hp : PathBalanced path n) :
    IsRedBlack (fixInsert t path) := by
  induction t, path using fixInsert.induct generalizing n with
  | case1 t =>
    cases ht with
    | nil => cases ct
    | black => cases ct
    | red hl hr => exact ⟨rfl, _, hl.black hr⟩
  | case2 t p =>
    cases hp with
    | red _ _ hb => cases hb
    | black hs h => exact plug_isRedBlack (.black hs h) ht fun hr => by cases hr
  | case3 t p g path hb =>
    rw [fixInsert, if_pos hb]
    exact plug_isRedBlack hp ht fun hr => by cases hb.symm.trans hr
  | case4 t p g path hb hr ih =>
    rw [fixInsert, if_neg hb, if_pos hr]
    cases hp with
    | black => exact absurd rfl hb
    | red hs cs hb' h =>
      cases h with
      | red => cases hb'
      | black hs' h =>
        cases hs' with
        | nil => cases hr
        | black => cases hr
        | red hl hr' =>
          exact ih ((ht.join_black hs).join_red (hl.black hr') (color_join ..) rfl)
            (color_join ..) h
  | case5 t p g path hb hr =>
    rw [fixInsert, if_neg hb, if_neg hr]
    cases hp with
    | black => exact absurd rfl hb
    | red hs cs hb' h =>
      cases h with
      | red => cases hb'
      | @black d a u _ _ hs' h =>
        have cu : u.color = .black := by
          cases hc : u.color with
          | red => exact absurd hc hr
          | black => rfl
        obtain ⟨h1, h2⟩ := @settleInsert_balanced _ t ⟨_, .red, _, _⟩ ⟨d, .black, a, u⟩ _ ht ct hs cs
          hs' rfl cu
        exact plug_isRedBlack h h1 fun _ => h2

end Insert

end RedBlack
