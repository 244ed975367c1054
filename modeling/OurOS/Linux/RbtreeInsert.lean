import OurOS.Linux.RbtreeRep

set_option linter.style.nameCheck false

namespace OurOS.Rbtree

open RedBlack RedBlack.ColorTree Cells

section

variable {σ : Type} {s : RbSys σ} {t u v b : ColorTree ℕ} {path : List (Frame ℕ)} {a x y q w n : ℕ}
  {c : Color} {d : Side} {m M : Multiset (ℕ × RbNode)} (rotate : ℕ → ℕ → RbSys σ → σ)

theorem rootOf_ne_rootOf {p : ℕ} (h : Holds Aligned s.node (treeCells p t + (treeCells q u + M)))
    (ht : t ≠ .nil) : rootOf t ≠ rootOf u := by
  cases t with
  | nil => exact absurd rfl ht
  | node c l x r =>
    have h1 : Holds Aligned s.node (cell x (record .left (p ||| bit c) (rootOf l) (rootOf r)) +
        (treeCells q u + (treeCells x l + treeCells x r + M))) := h.of_eq (by
      rw [treeCells]
      abel)
    exact (rootOf_ne h1).symm

/-- The rotation at the grandparent `y`, whose child `x` comes up; `v` changes sides. -/
theorem insertRotate_top {e : ℕ}
    (h : Holds Aligned s.node (cell y (record d (parentOf path ||| bit c) a e) +
      (cell x (record d w n (rootOf v)) + (treeCells q v + (pathCells y path + M)))))
    (hr : s.root = topOf y path) :
    Holds Aligned (__rbRotateSetParents (setColorIf ((s.setChild y d (rootOf v)).setChild x d.flip y)
        (rootOf v) y (bit .black)) y x (bit .red)).node
      (cell y (record d (x ||| bit .red) (rootOf v) e) +
        (cell x (record d (parentOf path ||| bit c) n y) +
          (treeCells y (v.paint .black) + (pathCells x path + M)))) ∧
    (__rbRotateSetParents (setColorIf ((s.setChild y d (rootOf v)).setChild x d.flip y)
        (rootOf v) y (bit .black)) y x (bit .red)).root = topOf x path := by
  have h1 := link_holds h
  have h2 := setColorIf_holds (h1.of_eq (n := treeCells q v +
    (cell y (record d (parentOf path ||| bit c) (rootOf v) e) +
      (cell x (record d w n y) + (pathCells y path + M)))) (by abel)) y .black
  obtain ⟨h3, h4⟩ := rotateSetParents_holds (h2.of_eq
    (n := cell y (record d (parentOf path ||| bit c) (rootOf v) e) +
      (cell x (record d w n y) + (pathCells y path + (treeCells y (v.paint .black) + M)))) (by abel))
    (e := .red) (by rw [setColorIf_root]; exact hr)
  exact ⟨h3.of_eq (by abel), h4⟩

theorem insertRotate_focus {p g : Frame ℕ} (h : Focus s t (p :: g :: path) m) (ht : t ≠ .nil) :
    Focus (insertRotate rotate g.side (rootOf t) p.key g.key s) (settleInsert t p g) path m := by
  obtain ⟨dp, cp, a, b⟩ := p
  obtain ⟨d, cg, y, u⟩ := g
  obtain ⟨hh, hr⟩ := h
  simp only [pathCells, parentOf_cons] at hh
  by_cases hs : dp = d
  · subst hs
    have h1 := hh.of_eq (n := cell y (record dp (parentOf path ||| bit cg) a (rootOf u)) +
      (cell a (record dp (y ||| bit cp) (rootOf t) (rootOf b)) +
        (treeCells a b + (pathCells y path + (treeCells a t + (treeCells y u + m)))))) (by abel)
    have hne : rootOf t ≠ rootOf b := rootOf_ne_rootOf (hh.of_eq (n :=
      treeCells a t + (treeCells a b + (cell y (record dp (parentOf path ||| bit cg) a (rootOf u)) +
        cell a (record dp (y ||| bit cp) (rootOf t) (rootOf b)) + pathCells y path +
          treeCells y u + m))) (by abel)) ht
    rw [settleInsert_outer (p := ⟨dp, cp, a, b⟩) (g := ⟨dp, cg, y, u⟩) rfl, insertRotate]
    simp only [(holds_child h1.right).2, if_neg hne]
    obtain ⟨h2, h3⟩ := insertRotate_top h1 hr
    refine ⟨h2.of_eq ?_, ?_⟩
    · simp only [treeCells_join, rootOf_join, rootOf_paint]
      abel
    · rw [rootOf_join]
      exact h3
  · obtain rfl := Side.eq_flip_of_ne hs
    obtain ⟨ct, tu, x, tv, rfl⟩ := exists_join d ht
    rw [rootOf_join, treeCells_join] at hh
    rw [settleInsert_inner (p := ⟨d.flip, cp, a, b⟩) (g := ⟨d, cg, y, u⟩) hs, insertRotate]
    have h1 := hh.of_eq (n := cell a (record d.flip (y ||| bit cp) x (rootOf b)) +
      (cell x (record d.flip (a ||| bit ct) (rootOf tv) (rootOf tu)) +
        (treeCells x tu + (treeCells x tv + (treeCells a b +
          (cell y (record d (parentOf path ||| bit cg) a (rootOf u)) +
            (pathCells y path + (treeCells y u + m)))))))) (by
      rw [record_flip, record_flip]
      abel)
    have hx := (holds_child h1.right).2
    have ha := (holds_child h1).1
    rw [Side.flip_flip] at hx
    have h2 := link_holds h1
    rw [Side.flip_flip] at h2
    have h3 := setColorIf_holds (h2.of_eq (n := treeCells x tu +
      (cell a (record d.flip (y ||| bit cp) (rootOf tu) (rootOf b)) +
        (cell x (record d.flip (a ||| bit ct) (rootOf tv) a) + (treeCells x tv + (treeCells a b +
          (cell y (record d (parentOf path ||| bit cg) a (rootOf u)) +
            (pathCells y path + (treeCells y u + m)))))))) (by abel)) a .black
    have h4 := setWord_holds (h3.of_eq (n :=
      cell a (record d.flip (y ||| bit cp) (rootOf tu) (rootOf b)) +
        (treeCells a (tu.paint .black) + (cell x (record d.flip (a ||| bit ct) (rootOf tv) a) +
          (treeCells x tv + (treeCells a b +
            (cell y (record d (parentOf path ||| bit cg) a (rootOf u)) +
              (pathCells y path + (treeCells y u + m)))))))) (by abel)) (x ||| bit .red)
    have h5 := h4.of_eq (n := cell y (record d (parentOf path ||| bit cg) a (rootOf u)) +
      (cell x (record d (a ||| bit ct) a (rootOf tv)) + (treeCells x tv + (pathCells y path +
        (cell a (record d.flip (x ||| bit .red) (rootOf tu) (rootOf b)) +
          (treeCells a (tu.paint .black) + (treeCells a b + (treeCells y u + m)))))))) (by
      rw [@record_flip d (a ||| bit ct)]
      abel)
    have htv : (augment (rotate a x) (rbSetParentColor (setColorIf
        ((s.setChild a d.flip (rootOf tu)).setChild x d a) (rootOf tu) a rbBlack) a x rbRed)).child
          x d.flip = rootOf tv := (holds_child h5.right).2
    simp only [rootOf_join, ha, hx, if_true, htv]
    obtain ⟨h6, h7⟩ := insertRotate_top (s := augment (rotate a x) (rbSetParentColor
      (setColorIf ((s.setChild a d.flip (rootOf tu)).setChild x d a) (rootOf tu) a rbBlack)
      a x rbRed)) h5 (by
        rw [rootOf_join] at hr
        exact (setColorIf_root ..).trans hr)
    refine ⟨h6.of_eq ?_, ?_⟩
    · simp only [treeCells_join, rootOf_join, rootOf_paint, record_flip]
      abel
    · rw [rootOf_join]
      exact h7

theorem Focus.cells {p g : Frame ℕ} (h : Focus s t (p :: g :: path) m) : Holds Aligned s.node
    (cell p.key (record p.side (g.key ||| bit p.color) (rootOf t) (rootOf p.sib)) +
      (treeCells g.key g.sib +
        (cell g.key (record g.side (parentOf path ||| bit g.color) p.key (rootOf g.sib)) +
          (treeCells p.key t + (treeCells p.key p.sib + (pathCells g.key path + m)))))) :=
  h.holds.of_eq (by
    simp only [pathCells, parentOf_cons]
    abel)

theorem Focus.side_eq {p g : Frame ℕ} (h : Focus s t (p :: g :: path) m) :
    (if p.key ≠ s.child g.key .right then Side.left else Side.right) = g.side := by
  have hc := h.cells
  obtain ⟨h1, h2⟩ := holds_child hc.right.right
  have hne := rootOf_ne hc
  cases hs : g.side with
  | left =>
    rw [hs] at h2
    exact if_pos fun he => hne (h2.symm.trans he.symm)
  | right =>
    rw [hs] at h1
    exact if_neg fun he => he h1.symm

theorem Focus.recolor {p g : Frame ℕ} (h : Focus s t (p :: g :: path) m) (hr : g.sib.color = .red) :
    rbParent (rbSetParentColor (rbSetParentColor s (rootOf g.sib) g.key rbBlack) p.key g.key rbBlack)
      g.key = parentOf path ∧
    Focus (rbSetParentColor (rbSetParentColor (rbSetParentColor s (rootOf g.sib) g.key rbBlack)
        p.key g.key rbBlack) g.key (parentOf path) rbRed)
      (join g.side .red (join p.side .black t p.key p.sib) g.key (g.sib.paint .black)) path m := by
  have hne : g.sib ≠ .nil := by
    rintro he
    rw [he] at hr
    cases hr
  have hc := h.cells
  rw [add_left_comm] at hc
  have h1 := setColor_holds hc hne g.key .black
  rw [add_left_comm] at h1
  have h2 := setWord_holds h1 (g.key ||| bit .black)
  have h3 := h2.of_eq (n :=
    cell g.key (record g.side (parentOf path ||| bit g.color) p.key (rootOf g.sib)) +
      (pathCells g.key path +
        (cell p.key (record p.side (g.key ||| bit .black) (rootOf t) (rootOf p.sib)) +
          (treeCells g.key (g.sib.paint .black) + (treeCells p.key t +
            (treeCells p.key p.sib + m)))))) (by abel)
  refine ⟨(holds_parent h3 (parentOf_isLink h3.right)).1,
    (setWord_holds h3 (parentOf path ||| bit .red)).of_eq ?_, ?_⟩
  · simp only [treeCells_join, rootOf_join, rootOf_paint]
    abel
  · rw [rootOf_join]
    exact h.root

theorem Focus.top {f : Frame ℕ} (h : Focus s t (f :: path) m) :
    rbParent s f.key = parentOf path ∧ rbColor s f.key = bit f.color ∧ f.key ≠ 0 := by
  have hh := h.holds
  rw [pathCells] at hh
  have hc : Holds Aligned s.node (cell f.key (record f.side (parentOf path ||| bit f.color) (rootOf t)
      (rootOf f.sib)) + (pathCells f.key path + (treeCells f.key t + (treeCells f.key f.sib + m)))) :=
    hh.of_eq (by
      rw [parentOf_cons]
      abel)
  obtain ⟨h1, h2⟩ := holds_parent hc (parentOf_isLink hc.right)
  exact ⟨h1, h2, hc.valid.1⟩

theorem bit_bne (c : Color) : (bit c != 0) = decide (c = .black) := by
  cases c <;> rfl

theorem insertLoop_red {p g : Frame ℕ} (h : Focus s t (p :: g :: path) m) (hp : p.color = .red)
    (n : ℕ) : insertLoop rotate (n + 1) (rootOf t) p.key s =
      if g.sib.color = .red then insertLoop rotate n g.key (parentOf path)
        (rbSetParentColor (rbSetParentColor (rbSetParentColor s (rootOf g.sib) g.key rbBlack)
          p.key g.key rbBlack) g.key (parentOf path) rbRed)
      else some (insertRotate rotate g.side (rootOf t) p.key g.key s) := by
  obtain ⟨-, h2, h3⟩ := h.top
  have hc := h.cells
  have hnb : ¬ rbIsBlack s p.key = true := by
    rw [rbIsBlack, h2, bit_bne, hp]
    decide
  have hgp : rbRedParent s p.key = g.key := by
    rw [rbRedParent, holds_word hc, hp]
    exact or_red _
  have hunc : s.child g.key g.side.flip = rootOf g.sib := (holds_child hc.right.right).2
  rw [insertLoop, if_neg h3, if_neg hnb]
  simp only [hgp, h.side_eq, hunc]
  have hiff := color_red_iff hc.right hc.right.right.valid.isLink
  by_cases hr : g.sib.color = .red
  · rw [if_pos (hiff.mpr hr), if_pos hr, (h.recolor hr).1]
  · rw [if_neg (mt hiff.mp hr), if_neg hr]

theorem insertLoop_focus {k : ℕ} (h : Focus s t path m) (ht : t ≠ .nil) (hp : PathBalanced path k)
    {n : ℕ} (hn : path.length < n) :
    ∃ s', insertLoop rotate n (rootOf t) (parentOf path) s = some s' ∧
      Focus s' (fixInsert t path) [] m := by
  induction t, path using fixInsert.induct generalizing s k n with
  | case1 t =>
    obtain ⟨n, rfl⟩ := Nat.exists_eq_succ_of_ne_zero (Nat.ne_zero_of_lt hn)
    refine ⟨_, if_pos rfl, ?_⟩
    have h1 := setColor_holds (h.holds.of_eq (n := treeCells 0 t + m) (by simp [pathCells, parentOf]))
      ht 0 .black
    refine ⟨h1.of_eq (by simp [pathCells, parentOf, fixInsert]), ?_⟩
    rw [fixInsert, rootOf_paint]
    exact h.root
  | case2 t p =>
    obtain ⟨n, rfl⟩ := Nat.exists_eq_succ_of_ne_zero (Nat.ne_zero_of_lt hn)
    obtain ⟨-, h2, h3⟩ := h.top
    cases hp with
    | red _ _ hb => cases hb
    | black =>
      refine ⟨s, ?_, focus_up.mpr h⟩
      rw [insertLoop, parentOf_cons, if_neg h3, if_pos (by rw [rbIsBlack, h2, bit_bne]; rfl)]
  | case3 t p g path hb =>
    obtain ⟨n, rfl⟩ := Nat.exists_eq_succ_of_ne_zero (Nat.ne_zero_of_lt hn)
    obtain ⟨-, h2, h3⟩ := h.top
    refine ⟨s, ?_, ?_⟩
    · rw [insertLoop, parentOf_cons, if_neg h3, if_pos (by rw [rbIsBlack, h2, bit_bne, hb]; rfl)]
    · rw [fixInsert, if_pos hb]
      exact focus_plug.mpr h
  | case4 t p g path hb hr ih =>
    obtain ⟨n, rfl⟩ := Nat.exists_eq_succ_of_ne_zero (Nat.ne_zero_of_lt hn)
    have hpr : p.color = .red := by
      cases hc : p.color with
      | red => rfl
      | black => exact absurd hc hb
    simp only [List.length_cons] at hn
    rw [fixInsert, if_neg hb, if_pos hr, parentOf_cons, insertLoop_red rotate h hpr, if_pos hr]
    obtain ⟨_, hp⟩ := hp.tail
    obtain ⟨_, hp⟩ := hp.tail
    have h1 := ih (h.recolor hr).2 (join_ne_nil _ _ _ _ _) hp (n := n) (by omega)
    rwa [rootOf_join] at h1
  | case5 t p g path hb hr =>
    obtain ⟨n, rfl⟩ := Nat.exists_eq_succ_of_ne_zero (Nat.ne_zero_of_lt hn)
    have hpr : p.color = .red := by
      cases hc : p.color with
      | red => rfl
      | black => exact absurd hc hb
    rw [fixInsert, if_neg hb, if_neg hr, parentOf_cons, insertLoop_red rotate h hpr, if_neg hr]
    exact ⟨_, rfl, focus_plug.mpr (insertRotate_focus rotate h ht)⟩

def linkOf : List (Frame ℕ) → RbLink
  | [] => .root
  | f :: _ => .child f.key f.side

theorem rbLinkNode_focus (h : Focus s .nil path (cell x ⟨w, a, n⟩ + m)) :
    Focus (rbLinkNode x (linkOf path) s) (.node .red .nil x .nil) path m := by
  have hparent : (linkOf path).parent = parentOf path ||| bit .red := by
    rw [or_red]
    cases path <;> rfl
  have h1 := setWord_holds (h.holds.of_eq (n := cell x (record .left w n a) +
    (pathCells 0 path + m)) (by
      simp only [treeCells, rootOf_nil, record]
      abel)) (linkOf path).parent
  have h2 := (setChild_holds (d := .left) h1 0).2
  have h3 := (setChild_holds h2 0).1
  rw [hparent] at h3
  rw [rbLinkNode.eq_def, hparent]
  cases path with
  | nil =>
    refine ⟨h3.of_eq ?_, rfl⟩
    simp only [treeCells, rootOf_nil, pathCells, parentOf, add_zero, zero_add]
  | cons f path =>
    refine ⟨?_, h.root⟩
    have h4 := h3.of_eq (n := cell f.key (record f.side (parentOf path ||| bit f.color) 0 (rootOf f.sib)) +
      (cell x (record .left (f.key ||| bit .red) 0 0) +
        (treeCells f.key f.sib + (pathCells f.key path + m)))) (by
      rw [pathCells, parentOf_cons]
      abel)
    refine (setChild_holds h4 x).1.of_eq ?_
    simp only [treeCells, pathCells, parentOf_cons, rootOf]
    abel

theorem rbInsert_focus (h : Focus s .nil path (cell x ⟨w, a, q⟩ + m))
    (hb : IsRedBlack (plug .nil path)) (hn : path.length < n) :
    ∃ s', __rbInsert rotate n x (rbLinkNode x (linkOf path) s) = some s' ∧
      Focus s' (fixInsert (.node .red .nil x .nil) path) [] m := by
  have h1 := rbLinkNode_focus h
  obtain ⟨k, hp, -, -⟩ := pathBalanced_of_plug hb
  have hparent : rbRedParent (rbLinkNode x (linkOf path) s) x = parentOf path := by
    have hc := h1.holds
    rw [treeCells, add_assoc, add_assoc] at hc
    rw [rbRedParent, holds_word hc]
    exact or_red _
  rw [__rbInsert, hparent]
  exact insertLoop_focus rotate h1 (by simp) hp hn

end

end OurOS.Rbtree
