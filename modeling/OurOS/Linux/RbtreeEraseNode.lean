import OurOS.Linux.RbtreeErase

set_option linter.style.nameCheck false

namespace OurOS.Rbtree

open RedBlack RedBlack.ColorTree Cells

/-- The cells of a way down whose first node hangs below `p`. -/
def wayCells (p q : ℕ) : List (Frame ℕ) → Multiset (ℕ × RbNode)
  | [] => 0
  | f :: way =>
    cell f.key (record f.side ((way.head?.elim p Frame.key) ||| bit f.color) q (rootOf f.sib)) +
      (treeCells f.key f.sib + wayCells p f.key way)

section Ways

variable {p q x : ℕ} {c : Color} {d : Side} {u : ColorTree ℕ} {way path : List (Frame ℕ)}

theorem parentOf_append (way : List (Frame ℕ)) (d : Side) (c : Color) (x : ℕ) (u : ColorTree ℕ)
    (path : List (Frame ℕ)) :
    parentOf (way ++ ⟨d, c, x, u⟩ :: path) = way.head?.elim x Frame.key := by
  cases way <;> rfl

theorem topOf_append (q : ℕ) (way : List (Frame ℕ)) (f : Frame ℕ) (path : List (Frame ℕ)) :
    topOf q (way ++ f :: path) = topOf f.key path := by
  induction way generalizing q with
  | nil => rfl
  | cons g way ih => exact ih g.key

theorem pathCells_append (q : ℕ) (way : List (Frame ℕ)) (d : Side) (c : Color) (x : ℕ) (u : ColorTree ℕ)
    (path : List (Frame ℕ)) :
    pathCells q (way ++ ⟨d, c, x, u⟩ :: path) = wayCells x q way +
      (cell x (record d (parentOf path ||| bit c) (topOf q way) (rootOf u)) +
        (treeCells x u + pathCells x path)) := by
  induction way generalizing q with
  | nil => exact (zero_add _).symm
  | cons f way ih =>
    rw [List.cons_append, pathCells, ih, parentOf_append, wayCells, topOf]
    abel

theorem wayCells_concat (p q : ℕ) (way : List (Frame ℕ)) (d : Side) (c : Color) (x : ℕ) (u : ColorTree ℕ) :
    wayCells p q (way ++ [⟨d, c, x, u⟩]) = wayCells x q way +
      (cell x (record d (p ||| bit c) (topOf q way) (rootOf u)) + treeCells x u) := by
  induction way generalizing q with
  | nil =>
    simp only [List.nil_append, wayCells, topOf, List.head?_nil, Option.elim_none]
    abel
  | cons f way ih =>
    have hhead : (way ++ [(⟨d, c, x, u⟩ : Frame ℕ)]).head?.elim p Frame.key =
        way.head?.elim x Frame.key := by
      cases way <;> rfl
    rw [List.cons_append, wayCells, ih, hhead, wayCells, topOf]
    abel

theorem treeCells_plug_way (p : ℕ) (u : ColorTree ℕ) (way : List (Frame ℕ)) :
    treeCells p (plug u way) = treeCells (way.head?.elim p Frame.key) u + wayCells p (rootOf u) way := by
  induction way generalizing u with
  | nil => exact (add_zero _).symm
  | cons f way ih =>
    rw [plug, ih, treeCells_join, rootOf_join, wayCells]
    simp only [List.head?_cons, Option.elim_some]
    abel

end Ways

section

variable {σ : Type} {s : RbSys σ} {t u l r : ColorTree ℕ} {path way : List (Frame ℕ)}
  {a x y z p q k w n : ℕ} {c e : Color} {v : RbNode} {m M : Multiset (ℕ × RbNode)}

theorem setParent_holds (h : Holds Aligned s.node (treeCells p t + M)) (ht : t ≠ .nil) (hp : IsLink p)
    (q : ℕ) : Holds Aligned (rbSetParent s (rootOf t) q).node (treeCells q t + M) := by
  have h1 := setParentIf_holds h hp q
  rwa [if_pos (rootOf_valid h ht).1] at h1

theorem setParentCell_holds {d : Side} {b : ℕ}
    (h : Holds Aligned s.node (cell x (record d (p ||| bit c) a b) + M)) (hp : IsLink p) (q : ℕ) :
    Holds Aligned (rbSetParent s x q).node (cell x (record d (q ||| bit c) a b) + M) := by
  rw [rbSetParent, (holds_parent h hp).2, Nat.lor_comm]
  exact setWord_holds h _

/-- The walk of case 3 ends at the leftmost node. -/
theorem successorLoop_spec {e : Color} {path' : List (Frame ℕ)} (g : Frame ℕ)
    (h : Holds Aligned s.node (treeCells p t + M)) (hl : leftmost t (g :: path) = some (e, y, u, path'))
    (hn : t.height ≤ n) : successorLoop s n g.key (rootOf t) = some (parentOf path', y) := by
  induction t generalizing p M g path n with
  | nil => cases hl
  | node c l a r ihl ihr =>
    obtain ⟨n, rfl⟩ := Nat.exists_eq_succ_of_ne_zero (Nat.ne_zero_of_lt hn)
    rw [treeCells, add_assoc, add_assoc] at h
    have hleft : s.child a .left = rootOf l := (holds_child h).1
    cases l with
    | nil =>
      obtain ⟨rfl, rfl, rfl, rfl⟩ := hl
      rw [successorLoop, rootOf, hleft]
      exact if_neg fun he => he rfl
    | node c' l' a' r' =>
      rw [successorLoop, rootOf, hleft]
      have hne := (rootOf_valid h.right (by simp)).1
      rw [if_pos hne]
      refine ihl ⟨.left, c, a, r⟩ h.right hl ?_
      simp only [height] at hn ⊢
      omega

theorem leftmost_plug (t : ColorTree ℕ) (way : List (Frame ℕ)) (path : List (Frame ℕ))
    (ht : t ≠ .nil) (hs : ∀ f ∈ way, f.side = Side.left) :
    leftmost (plug t way) path = leftmost t (way ++ path) := by
  induction way generalizing t with
  | nil => rfl
  | cons f way ih =>
    obtain ⟨d, c, x, u⟩ := f
    obtain rfl : d = .left := hs _ List.mem_cons_self
    rw [plug, ih _ (join_ne_nil _ _ _ _ _) fun g hg => hs g (List.mem_cons_of_mem _ hg)]
    cases t with
    | nil => exact absurd rfl ht
    | node c' l a r => rfl

/-- Case 3: the successor `y` leaves the right subtree and takes it as its own. -/
theorem detachSuccessor_way (cb : RbAugmentCallbacks σ) {init : List (Frame ℕ)} {r : ColorTree ℕ}
    (hcb : ∀ x stop (s' : RbSys σ), (cb.propagate x stop s').isSome = true)
    (hway : way = init ++ [⟨.left, c, z, r⟩])
    (h : Holds Aligned s.node (cell x v + (treeCells x (plug (.node e .nil y u) way) + M)))
    (hs : ∀ f ∈ way, f.side = Side.left) (hn : (plug (.node e .nil y u) way).height ≤ n) :
    ∃ s', detachSuccessor cb n x z s =
        some (s', way.head?.elim y Frame.key, y, rootOf u) ∧ s'.root = s.root ∧
      Holds Aligned s'.node (cell x v + (cell y (record .right
          ((way.head?.elim x Frame.key) ||| bit e) z 0) +
        (treeCells y u + (wayCells y (rootOf u) way + M)))) := by
  have hx : IsLink x := h.valid.isLink
  obtain ⟨f, rest, hcons⟩ : ∃ f rest, way = f :: rest := by
    rw [hway]
    cases init with
    | nil => exact ⟨_, _, rfl⟩
    | cons f rest => exact ⟨_, _, rfl⟩
  have hside : f.side = .left := hs f (hcons ▸ List.mem_cons_self)
  -- the walk down
  have hplug : plug (.node e .nil y u) way = join .left c (plug (.node e .nil y u) init) z r := by
    rw [hway, plug_append]
    rfl
  have hne : plug (.node e .nil y u) init ≠ .nil := plug_ne_nil (by simp) init
  have h1 : Holds Aligned s.node (cell z (record .left (x ||| bit c)
      (rootOf (plug (.node e .nil y u) init)) (rootOf r)) +
      (treeCells z (plug (.node e .nil y u) init) + (cell x v + (treeCells z r + M)))) :=
    h.of_eq (by
      rw [hplug, treeCells_join]
      abel)
  have hleft := (holds_child h1).1
  have hlm : leftmost (plug (.node e .nil y u) init) [⟨.left, c, z, r⟩] = some (e, y, u, way) := by
    rw [leftmost_plug _ _ _ (by simp) fun g hg => hs g (by simp [hway, hg]), hway]
    rfl
  have hheight : (plug (.node e .nil y u) init).height ≤ n := by
    rw [hplug] at hn
    simp only [join, height] at hn
    omega
  have hloop := successorLoop_spec ⟨.left, c, z, r⟩ h1.right hlm hheight
  have hnz : rootOf (plug (.node e .nil y u) init) ≠ 0 := (rootOf_valid h1.right hne).1
  -- the stores
  have h2 : Holds Aligned s.node (cell f.key (record f.side (rest.head?.elim x Frame.key ||| bit f.color)
      y (rootOf f.sib)) + (cell y (record .left (f.key ||| bit e) 0 (rootOf u)) +
      (treeCells f.key f.sib + (wayCells x f.key rest + (cell x v + (treeCells y u + M)))))) :=
    h.of_eq (by
      rw [treeCells_plug_way, treeCells, treeCells, zero_add, hcons, wayCells]
      simp only [rootOf, List.head?_cons, Option.elim_some]
      abel)
  have hchild2 : s.child y .right = rootOf u := (holds_child h2.right).2
  have h3 := (setChild_holds h2 (rootOf u)).1
  have h4 := (setChild_holds (h3.of_eq (n := cell y (record .left (f.key ||| bit e) 0 (rootOf u)) +
    (wayCells x (rootOf u) way + (cell x v + (treeCells y u + M)))) (by
      rw [hcons, wayCells]
      abel)) z).2
  have h5 := h4.of_eq (n := cell z (record .left (x ||| bit c) (topOf (rootOf u) init) (rootOf r)) +
    (cell y (record .left (f.key ||| bit e) 0 z) + (wayCells z (rootOf u) init +
      (treeCells z r + (cell x v + (treeCells y u + M)))))) (by
    rw [hway, wayCells_concat]
    abel)
  rw [hside] at h5
  have h6 := setParentCell_holds h5 hx y
  obtain ⟨a, ha⟩ := Option.isSome_iff_exists.mp (hcb f.key y (augment (cb.copy x y) (rbSetParent
    ((s.setChild f.key .left (rootOf u)).setChild y .right z) z y)))
  refine ⟨{ rbSetParent ((s.setChild f.key .left (rootOf u)).setChild y .right z) z y with aug := a },
    ?_, rfl, h6.of_eq ?_⟩
  · rw [detachSuccessor]
    simp only [hleft, if_neg hnz, hloop, hcons, parentOf_cons, hchild2, propagate, ha, Option.map_some,
      List.head?_cons, Option.elim_some, Option.bind_eq_bind, Option.bind_some]
    rfl
  · rw [hway, wayCells_concat, ← hway, hcons, show Side.right = Side.left.flip from rfl, record_flip]
    simp only [List.head?_cons, Option.elim_some]
    abel

/-- Cases 2 and 3: the successor `y` leaves the right subtree and takes it as its own. -/
theorem detachSuccessor_holds (cb : RbAugmentCallbacks σ)
    (hcb : ∀ x stop (s' : RbSys σ), (cb.propagate x stop s').isSome = true)
    (h : Holds Aligned s.node (cell x v + (treeCells x (plug (.node e .nil y u) way) + M)))
    (hs : ∀ f ∈ way, f.side = Side.left) (hn : (plug (.node e .nil y u) way).height ≤ n) :
    ∃ s', detachSuccessor cb n x (topOf y way) s =
        some (s', way.head?.elim y Frame.key, y, rootOf u) ∧ s'.root = s.root ∧
      Holds Aligned s'.node (cell x v + (cell y (record .right
          ((way.head?.elim x Frame.key) ||| bit e) (topOf (rootOf u) way) 0) +
        (treeCells y u + (wayCells y (rootOf u) way + M)))) := by
  rcases List.eq_nil_or_concat way with rfl | ⟨init, g, hway⟩
  · rw [treeCells_plug_way, treeCells, treeCells, zero_add] at h
    have h1 := h.of_eq (n := cell y (record .left (x ||| bit e) 0 (rootOf u)) +
      (cell x v + (treeCells y u + M))) (by
      simp only [List.head?_nil, Option.elim_none, rootOf_nil, wayCells]
      abel)
    obtain ⟨h2, h3⟩ := holds_child h1
    rw [detachSuccessor, topOf, h2, if_pos rfl]
    refine ⟨augment (cb.copy x y) s, congrArg (fun k => some (_, y, y, k)) h3, rfl, h1.of_eq ?_⟩
    rw [show (Side.left) = Side.right.flip from rfl, record_flip]
    simp only [List.head?_nil, Option.elim_none, topOf, wayCells]
    abel
  · rw [List.concat_eq_append] at hway
    obtain ⟨d, c, z, r⟩ := g
    obtain rfl : d = .left := hs ⟨d, c, z, r⟩ (by simp [hway])
    have htop : ∀ q, topOf q way = z := fun q => by rw [hway, topOf_append]; rfl
    rw [htop, htop]
    exact detachSuccessor_way cb hcb hway h hs hn

/-- Where the missing black node of an emptied place has to be made up for, or 0. -/
def rebalanceOf (u : ColorTree ℕ) (gap : Color) (path : List (Frame ℕ)) : ℕ :=
  match u, gap with
  | .nil, .black => parentOf path
  | _, _ => 0

theorem closeGap_focus {gap : Color} (rotate : ℕ → ℕ → RbSys σ → σ) (h : Focus s (u.paint c) path m)
    (hk : Balanced (node gap .nil x u) k) (hp : PathBalanced path k) (hn : path.length ≤ n) :
    ∃ s', (if rebalanceOf u gap path ≠ 0 then ____rbEraseColor rotate n 0 (rebalanceOf u gap path) s
      else some s) = some s' ∧ Focus s' (closeGap c u gap path) [] m := by
  have hstay : rebalanceOf u gap path = 0 → closeGap c u gap path = plug (u.paint c) path →
      ∃ s', (if rebalanceOf u gap path ≠ 0 then ____rbEraseColor rotate n 0 (rebalanceOf u gap path) s
        else some s) = some s' ∧ Focus s' (closeGap c u gap path) [] m := by
    intro h0 hplug
    rw [h0, hplug]
    exact ⟨s, if_neg fun he => he rfl, focus_plug.mpr h⟩
  cases u with
  | node e l y r => exact hstay rfl rfl
  | nil =>
    cases gap with
    | red => exact hstay rfl rfl
    | black =>
      cases path with
      | nil => exact hstay rfl rfl
      | cons f path =>
        have hf : f.key ≠ 0 := h.top.2.2
        cases hk with
        | black _ hr =>
          rw [show rebalanceOf .nil .black (f :: path) = f.key from rfl, if_pos hf]
          exact eraseColor_focus rotate h hr hp hn

/-- What the node and its surroundings hold before it is erased. -/
theorem Focus.node (h : Focus s (node c l x r) path m) : IsLink (parentOf path) ∧
    Holds Aligned s.node (cell x (record .left (parentOf path ||| bit c) (rootOf l) (rootOf r)) +
      (pathCells x path + (treeCells x l + (treeCells x r + m)))) := by
  have hh := h.holds
  rw [add_assoc] at hh
  refine ⟨parentOf_isLink hh.right, h.holds.of_eq ?_⟩
  rw [treeCells, rootOf]
  abel

theorem eraseNode_right (cb : RbAugmentCallbacks σ) (h : Focus s (node c .nil x r) path m) (n : ℕ) :
    ∃ s', eraseNode cb n x s = some (s', rebalanceOf r c path, parentOf path) ∧
      Focus s' (r.paint c) path
        (cell x (record .left (parentOf path ||| bit c) 0 (rootOf r)) + m) := by
  obtain ⟨hp, h1⟩ := h.node
  rw [treeCells, zero_add] at h1
  obtain ⟨hleft, hright⟩ := holds_child h1
  have hword := holds_word h1
  obtain ⟨h2, h3⟩ := changeChild_holds h1 h.root (rootOf r)
  rw [eraseNode]
  simp only [hleft, show s.child x .right = rootOf r from hright, hword, parentOfWord_or hp,
    colorOfWord_or hp, rootOf_nil, if_true]
  cases r with
  | nil =>
    refine ⟨__rbChangeChild s x 0 (parentOf path), ?_, h2.of_eq ?_, h3⟩
    · cases c <;> rfl
    · rw [paint, treeCells, treeCells, rootOf]
      abel
  | node e l y r =>
    have h4 := setColor_holds (h2.of_eq (n := treeCells x (.node e l y r) +
      (cell x (record .left (parentOf path ||| bit c) 0 y) + (pathCells y path + m))) (by
        rw [rootOf, rootOf]
        abel)) (by simp) (parentOf path) c
    rw [if_pos (rootOf_valid h1.right.right (by simp)).1]
    refine ⟨_, rfl, h4.of_eq ?_, h3⟩
    rw [rootOf_paint, rootOf]
    abel

theorem eraseNode_left (cb : RbAugmentCallbacks σ) (h : Focus s (node c l x .nil) path m)
    (hl : l ≠ .nil) (n : ℕ) : ∃ s', eraseNode cb n x s = some (s', 0, parentOf path) ∧
      Focus s' (l.paint c) path
        (cell x (record .left (parentOf path ||| bit c) (rootOf l) 0) + m) := by
  obtain ⟨hp, h1⟩ := h.node
  obtain ⟨hleft, hright⟩ := holds_child h1
  have hword := holds_word h1
  have hne : rootOf l ≠ 0 := (rootOf_valid h1.right.right hl).1
  have h2 := setColor_holds (h1.of_eq (n := treeCells x l +
    (cell x (record .left (parentOf path ||| bit c) (rootOf l) 0) + (pathCells x path + m))) (by
      rw [treeCells, rootOf_nil]
      abel)) hl (parentOf path) c
  obtain ⟨h3, h4⟩ := changeChild_holds (h2.of_eq (n :=
    cell x (record .left (parentOf path ||| bit c) (rootOf l) 0) + (pathCells x path +
      (treeCells (parentOf path) (l.paint c) + m))) (by abel)) h.root (rootOf l)
  rw [eraseNode]
  simp only [hleft, show s.child x .right = 0 from hright, hword, parentOfWord_or hp, if_neg hne,
    if_true]
  refine ⟨_, rfl, h3.of_eq ?_, ?_⟩
  · rw [rootOf_paint]
    abel
  · rw [rootOf_paint]
    exact h4

theorem placeSuccessor_focus (hl : l ≠ .nil) (hr : s.root = topOf x path)
    (h : Holds Aligned s.node (cell x (record .left (parentOf path ||| bit c) (rootOf l) a) +
      (cell y (record .right ((way.head?.elim x Frame.key) ||| bit e) (topOf (rootOf u) way) 0) +
        (treeCells y u + (wayCells y (rootOf u) way + (treeCells x l + (pathCells x path + m))))))) :
    (placeSuccessor x (way.head?.elim y Frame.key) y (rootOf u) s).2 =
        rebalanceOf u e (way ++ ⟨.right, c, y, l⟩ :: path) ∧
      Focus (placeSuccessor x (way.head?.elim y Frame.key) y (rootOf u) s).1 (u.paint .black)
        (way ++ ⟨.right, c, y, l⟩ :: path)
        (cell x (record .left (parentOf path ||| bit c) (rootOf l) a) + m) := by
  have hx : IsLink x := h.valid.isLink
  have hy : IsLink y := h.right.valid.isLink
  have hp : IsLink (parentOf path) := parentOf_isLink h.right.right.right.right.right
  have hq : IsLink (way.head?.elim x Frame.key) := by
    cases way with
    | nil => exact hx
    | cons f rest =>
      have h0 := h.right.right.right
      rw [wayCells, add_assoc] at h0
      exact h0.valid.isLink
  have hleft := (holds_child h).1
  -- the left subtree
  have h1 := (setChild_holds (d := .right) (h.of_eq (n :=
    cell y (record .right ((way.head?.elim x Frame.key) ||| bit e) (topOf (rootOf u) way) 0) +
      (cell x (record .left (parentOf path ||| bit c) (rootOf l) a) + (treeCells y u +
        (wayCells y (rootOf u) way + (treeCells x l + (pathCells x path + m)))))) (by abel))
    (rootOf l)).2
  have h2 := setParent_holds (h1.of_eq (n := treeCells x l +
    (cell y (record .right ((way.head?.elim x Frame.key) ||| bit e) (topOf (rootOf u) way)
        (rootOf l)) + (cell x (record .left (parentOf path ||| bit c) (rootOf l) a) + (treeCells y u +
        (wayCells y (rootOf u) way + (pathCells x path + m)))))) (by abel)) hl hx y
  -- the parent
  have h3 := h2.of_eq (n := cell x (record .left (parentOf path ||| bit c) (rootOf l) a) +
    (pathCells x path + (cell y (record .right ((way.head?.elim x Frame.key) ||| bit e)
      (topOf (rootOf u) way) (rootOf l)) + (treeCells y u + (wayCells y (rootOf u) way +
        (treeCells y l + m)))))) (by abel)
  have hword := holds_word h3
  obtain ⟨h4, h5⟩ := changeChild_holds h3 hr y
  -- the word of the successor
  have h6 := h4.of_eq (n := cell y (record .right ((way.head?.elim x Frame.key) ||| bit e)
      (topOf (rootOf u) way) (rootOf l)) + (treeCells y u + (wayCells y (rootOf u) way +
        (treeCells y l + (pathCells y path +
          (cell x (record .left (parentOf path ||| bit c) (rootOf l) a) + m)))))) (by abel)
  have hword2 := holds_word h6
  have h7 := setWord_holds h6 (parentOf path ||| bit c)
  have hroot : topOf y path = topOf (rootOf u) (way ++ ⟨.right, c, y, l⟩ :: path) := by
    rw [topOf_append]
  dsimp only [Side.flip] at h6 h7 hword hword2 h5
  rw [placeSuccessor]
  simp only [hleft, hword, parentOfWord_or hp, hword2, colorOfWord_or hq]
  cases u with
  | nil =>
    rw [rootOf_nil, if_neg (by simp)]
    refine ⟨?_, h7.of_eq ?_, h5.trans hroot⟩
    · cases e <;> simp [rebalanceOf, parentOf_append, bit, rbRed, rbBlack]
    · rw [paint, parentOf_append, pathCells_append, rootOf_nil]
      simp only [treeCells]
      abel
  | node cu ul z ur =>
    have hz : z ≠ 0 := (rootOf_valid h.right.right (by simp)).1
    have h8 := setColor_holds (h7.of_eq (n := treeCells y (.node cu ul z ur) +
      (cell y (record .right (parentOf path ||| bit c) (topOf z way) (rootOf l)) +
        (wayCells y z way + (treeCells y l + (pathCells y path +
          (cell x (record .left (parentOf path ||| bit c) (rootOf l) a) + m)))))) (by
            rw [rootOf]
            abel)) (by simp) (way.head?.elim y Frame.key) .black
    rw [rootOf, if_pos hz]
    refine ⟨rfl, h8.of_eq ?_, h5.trans hroot⟩
    rw [parentOf_append, pathCells_append, rootOf_paint, rootOf]
    abel

theorem eraseNode_both (cb : RbAugmentCallbacks σ)
    (hcb : ∀ x stop (s' : RbSys σ), (cb.propagate x stop s').isSome = true)
    (hr : plug (.node e .nil y u) way = r) (h : Focus s (node c l x r) path m) (hl : l ≠ .nil)
    (hs : ∀ f ∈ way, f.side = Side.left) (hn : r.height ≤ n) :
    ∃ s', eraseNode cb n x s = some (s', rebalanceOf u e (way ++ ⟨.right, c, y, l⟩ :: path), y) ∧
      Focus s' (u.paint .black) (way ++ ⟨.right, c, y, l⟩ :: path)
        (cell x (record .left (parentOf path ||| bit c) (rootOf l) (rootOf r)) + m) := by
  obtain ⟨hp, h1⟩ := h.node
  obtain ⟨hleft, hright⟩ := holds_child h1
  have hrne : r ≠ .nil := hr ▸ plug_ne_nil (by simp) way
  have hl0 : rootOf l ≠ 0 := (rootOf_valid h1.right.right hl).1
  have hr0 : rootOf r ≠ 0 := (rootOf_valid h1.right.right.right hrne).1
  have hroot : rootOf r = topOf y way := by
    rw [← hr, rootOf_plug]
    rfl
  rw [hroot] at hr0
  subst hr
  obtain ⟨s1, h2, h3, h4⟩ := detachSuccessor_holds cb hcb (h1.of_eq (n :=
    cell x (record .left (parentOf path ||| bit c) (rootOf l) (rootOf (plug (.node e .nil y u) way))) +
      (treeCells x (plug (.node e .nil y u) way) + (treeCells x l + (pathCells x path + m))))
    (by abel)) hs hn
  obtain ⟨h5, h6⟩ := placeSuccessor_focus (x := x) hl (h3.trans h.root) h4
  rw [eraseNode]
  simp only [hleft, if_neg hl0, show s.child x .right = _ from hright, hroot, if_neg hr0]
  rw [hroot] at h6
  refine ⟨_, ?_, h6⟩
  rw [h2, ← h5]
  rfl

/-- The node goes, its own cell stays as it was, and no other cell than the tree's is written. -/
theorem rbEraseAugmented_focus (cb : RbAugmentCallbacks σ)
    (hcb : ∀ x stop (s' : RbSys σ), (cb.propagate x stop s').isSome = true)
    (h : Focus s (node c l x r) path m) (hb : IsRedBlack (plug (node c l x r) path))
    (hn : (plug (node c l x r) path).height ≤ n) :
    ∃ s', rbEraseAugmented cb n x s = some s' ∧ Focus s' (eraseAt c l r path) []
      (cell x (record .left (parentOf path ||| bit c) (rootOf l) (rootOf r)) + m) := by
  have hlen := (height_add_length_le (node c l x r) path).trans hn
  have hnode : r.height + 1 ≤ (node c l x r).height := by
    simp only [height]
    omega
  have hdone : ∀ {s' : RbSys σ} {q reb : ℕ}, eraseNode cb n x s = some (s', reb, q) → ∃ a,
      rbEraseAugmented cb n x s = if reb ≠ 0 then ____rbEraseColor cb.rotate n 0 reb { s' with aug := a }
        else some { s' with aug := a } := by
    intro s' q reb he
    obtain ⟨a, ha⟩ := Option.isSome_iff_exists.mp (hcb q 0 s')
    refine ⟨a, ?_⟩
    simp only [rbEraseAugmented, __rbEraseAugmented, he, propagate, ha, Option.map_some,
      Option.bind_eq_bind, Option.bind_some, Option.pure_def]
  rcases eraseAt_cases hb with ⟨rfl, k, hk, hp, -, he⟩ | ⟨hl, rfl, -, he⟩ |
    ⟨hl, e, y, u, way, k, hway, -, hs, hk, hp, -, he⟩
  · obtain ⟨s1, h1, h2⟩ := eraseNode_right cb h n
    obtain ⟨a, ha⟩ := hdone h1
    rw [he, ha]
    exact closeGap_focus cb.rotate ⟨h2.holds, h2.root⟩ hk hp (by omega)
  · obtain ⟨s1, h1, h2⟩ := eraseNode_left cb h hl n
    obtain ⟨a, ha⟩ := hdone h1
    rw [he, ha]
    exact ⟨_, if_neg fun he => he rfl, focus_plug.mpr ⟨h2.holds, h2.root⟩⟩
  · obtain ⟨s1, h1, h2⟩ := eraseNode_both (n := n) cb hcb hway h hl hs (by omega)
    obtain ⟨a, ha⟩ := hdone h1
    have hw := height_add_length_le (node e .nil y u) way
    rw [hway, height] at hw
    rw [he, ha]
    refine closeGap_focus (n := n) cb.rotate ⟨h2.holds, h2.root⟩ hk hp ?_
    rw [List.length_append, List.length_cons]
    omega

end

end OurOS.Rbtree
