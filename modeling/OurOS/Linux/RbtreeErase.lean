import OurOS.Linux.RbtreeInsert

set_option linter.style.nameCheck false

namespace OurOS.Rbtree

open RedBlack RedBlack.ColorTree Cells

section

variable {σ : Type} {s : RbSys σ} {t u near far : ColorTree ℕ} {path : List (Frame ℕ)}
  {a x y p q k w n : ℕ} {c e : Color} {d : Side} {m M : Multiset (ℕ × RbNode)}
  (rotate : ℕ → ℕ → RbSys σ → σ)

theorem Focus.frame {f : Frame ℕ} (h : Focus s t (f :: path) m) : Holds Aligned s.node
    (cell f.key (record f.side (parentOf path ||| bit f.color) (rootOf t) (rootOf f.sib)) +
      (treeCells f.key f.sib + (treeCells f.key t + (pathCells f.key path + m)))) :=
  h.holds.of_eq (by
    rw [pathCells, parentOf_cons]
    abel)

theorem Focus.parent (h : Focus s t path m) (ht : t ≠ .nil) :
    rbParent s (rootOf t) = parentOf path := by
  have hh := h.holds
  rw [add_assoc] at hh
  have hp := parentOf_isLink hh.right
  cases t with
  | nil => exact absurd rfl ht
  | node c l x r =>
    rw [treeCells, add_assoc] at hh
    exact (holds_parent hh hp).1

/-- Case 1: the sibling `x` comes up, and the node gets a black sibling. -/
theorem eraseRotate_focus (h : Focus s t (⟨d, c, p, join d .red near x far⟩ :: path) m)
    (hn : near ≠ .nil) : (eraseRotate rotate d p x s).2 = rootOf near ∧
      Focus (eraseRotate rotate d p x s).1 t
        (⟨d, .red, p, near.paint .black⟩ :: ⟨d, c, x, far⟩ :: path) m := by
  have h1 := h.frame.of_eq (n := cell p (record d.flip (parentOf path ||| bit c) x (rootOf t)) +
    (cell x (record d.flip (p ||| bit .red) (rootOf far) (rootOf near)) +
      (treeCells x near + (treeCells x far + (treeCells p t + (pathCells p path + m)))))) (by
    rw [record_flip, record_flip, treeCells_join, rootOf_join]
    abel)
  have hnear := (holds_child h1.right).2
  rw [Side.flip_flip] at hnear
  have h2 := link_holds h1
  rw [Side.flip_flip] at h2
  have h3 := setColor_holds (h2.of_eq (n := treeCells x near +
    (cell p (record d.flip (parentOf path ||| bit c) (rootOf near) (rootOf t)) +
      (cell x (record d.flip (p ||| bit .red) (rootOf far) p) +
        (treeCells x far + (treeCells p t + (pathCells p path + m)))))) (by abel)) hn p .black
  obtain ⟨h4, h5⟩ := rotateSetParents_holds (e := .red) (h3.of_eq (n :=
    cell p (record d.flip (parentOf path ||| bit c) (rootOf near) (rootOf t)) +
      (cell x (record d.flip (p ||| bit .red) (rootOf far) p) + (pathCells p path +
        (treeCells p (near.paint .black) + (treeCells x far + (treeCells p t + m)))))) (by abel))
    h.root
  rw [eraseRotate, hnear]
  refine ⟨rfl, h4.of_eq ?_, h5⟩
  simp only [pathCells, parentOf_cons, rootOf_paint, record_flip]
  abel

/-- Case 4: the sibling `x` comes up with the color of the parent. -/
theorem eraseOuter_holds (h : Holds Aligned s.node
    (cell p (record d.flip (parentOf path ||| bit c) a k) +
      (cell x (record d.flip w (rootOf far) (rootOf near)) +
        (treeCells x near + (treeCells q far + (pathCells p path + M))))))
    (hr : s.root = topOf p path) (hf : far ≠ .nil) :
    Holds Aligned (eraseOuter rotate d p x (rootOf far) s).node
      (cell p (record d.flip (x ||| bit .black) (rootOf near) k) +
        (cell x (record d.flip (parentOf path ||| bit c) (rootOf far) p) +
          (treeCells p near + (treeCells x (far.paint .black) + (pathCells x path + M))))) ∧
    (eraseOuter rotate d p x (rootOf far) s).root = topOf x path := by
  have hnear := (holds_child h.right).2
  rw [Side.flip_flip] at hnear
  have h1 := link_holds h
  rw [Side.flip_flip] at h1
  have h2 := setColor_holds (h1.of_eq (n := treeCells q far +
    (cell p (record d.flip (parentOf path ||| bit c) (rootOf near) k) +
      (cell x (record d.flip w (rootOf far) p) +
        (treeCells x near + (pathCells p path + M))))) (by abel)) hf x .black
  have h3 := setParentIf_holds (h2.of_eq (n := treeCells x near +
    (cell p (record d.flip (parentOf path ||| bit c) (rootOf near) k) +
      (cell x (record d.flip w (rootOf far) p) +
        (treeCells x (far.paint .black) + (pathCells p path + M))))) (by abel))
    h.right.valid.isLink p
  obtain ⟨h4, h5⟩ := rotateSetParents_holds (e := .black) (h3.of_eq (n :=
    cell p (record d.flip (parentOf path ||| bit c) (rootOf near) k) +
      (cell x (record d.flip w (rootOf far) p) + (pathCells p path + (treeCells p near +
        (treeCells x (far.paint .black) + M))))) (by abel)) (by
      split_ifs
      exacts [hr, hr])
  rw [eraseOuter, hnear]
  exact ⟨h4.of_eq (by abel), h5⟩

/-- Case 3: the red child `k` of the sibling `x` comes between the parent and the sibling. -/
theorem eraseInner_holds {v : ColorTree ℕ} (h : Holds Aligned s.node
    (cell p (record d w a x) + (cell x (record d q k n) +
      (cell k (record d y (rootOf u) (rootOf v)) + (treeCells k v + M))))) :
    (eraseInner rotate d p x k s).2 = (x, k) ∧
    Holds Aligned (eraseInner rotate d p x k s).1.node
      (cell p (record d w a k) + (cell x (record d q (rootOf v) n) +
        (cell k (record d y (rootOf u) x) + (treeCells x (v.paint .black) + M)))) ∧
    (eraseInner rotate d p x k s).1.root = s.root := by
  have hv := (holds_child h.right.right).2
  have h1 := link_holds (h.of_eq (n := cell x (record d q k n) +
    (cell k (record d y (rootOf u) (rootOf v)) + (cell p (record d w a x) + (treeCells k v + M))))
    (by abel))
  have h2 := (setChild_holds (h1.of_eq (n := cell p (record d w a x) +
    (cell x (record d q (rootOf v) n) + (cell k (record d y (rootOf u) x) + (treeCells k v + M))))
    (by abel)) k).2
  have h3 := setColorIf_holds (h2.of_eq (n := treeCells k v + (cell p (record d w a k) +
    (cell x (record d q (rootOf v) n) + (cell k (record d y (rootOf u) x) + M)))) (by abel)) x .black
  rw [eraseInner, hv]
  exact ⟨rfl, h3.of_eq (by abel), setColorIf_root ..⟩

theorem eraseTurn_outer (h : Focus s t (⟨d, c, p, join d e near x far⟩ :: path) m)
    (hf : far.color = .red) :
    (eraseTurn rotate d p x s).2 = false ∧ Focus (eraseTurn rotate d p x s).1
      (join d c (join d .black t p near) x (far.paint .black)) path m := by
  have h1 := h.frame.of_eq (n := cell p (record d.flip (parentOf path ||| bit c) x (rootOf t)) +
    (cell x (record d.flip (p ||| bit e) (rootOf far) (rootOf near)) +
      (treeCells x near + (treeCells x far + (pathCells p path + (treeCells p t + m)))))) (by
    rw [record_flip, record_flip, treeCells_join, rootOf_join]
    abel)
  have hfar := (holds_child h1.right).1
  have hiff := color_black_iff (h1.of_eq (n := treeCells x far +
    (cell p (record d.flip (parentOf path ||| bit c) x (rootOf t)) +
    (cell x (record d.flip (p ||| bit e) (rootOf far) (rootOf near)) +
      (treeCells x near + (pathCells p path + (treeCells p t + m)))))) (by abel))
      h1.right.valid.isLink
  have hnb : ¬ (rootOf far = 0 ∨ rbIsBlack s (rootOf far) = true) := by
    rw [hiff, hf]
    decide
  have hne : far ≠ .nil := by
    rintro rfl
    cases hf
  obtain ⟨h2, h3⟩ := eraseOuter_holds rotate h1 h.root hne
  rw [eraseTurn]
  simp only [hfar, if_neg hnb]
  refine ⟨trivial, h2.of_eq ?_, ?_⟩
  · simp only [treeCells_join, rootOf_join, rootOf_paint, record_flip]
    abel
  · rw [rootOf_join]
    exact h3

theorem eraseTurn_inner {nn nf : ColorTree ℕ}
    (h : Focus s t (⟨d, c, p, join d e (join d .red nn k nf) x far⟩ :: path) m)
    (hf : far.color = .black) :
    (eraseTurn rotate d p x s).2 = false ∧ Focus (eraseTurn rotate d p x s).1
      (join d c (join d .black t p nn) k (join d .black (nf.paint .black) x far)) path m := by
  have h1 := h.frame.of_eq (n := cell p (record d (parentOf path ||| bit c) (rootOf t) x) +
    (cell x (record d (p ||| bit e) k (rootOf far)) +
      (cell k (record d (x ||| bit .red) (rootOf nn) (rootOf nf)) + (treeCells k nf +
        (treeCells x far + (treeCells k nn + (pathCells p path + (treeCells p t + m)))))))) (by
    rw [treeCells_join, rootOf_join, treeCells_join, rootOf_join]
    abel)
  obtain ⟨hk, hfar⟩ := holds_child h1.right
  have hred := (holds_parent h1.right.right h1.right.valid.isLink).2
  have hblack : rootOf far = 0 ∨ rbIsBlack s (rootOf far) = true :=
    (color_black_iff (h1.of_eq (n := treeCells x far +
      (cell p (record d (parentOf path ||| bit c) (rootOf t) x) +
        (cell x (record d (p ||| bit e) k (rootOf far)) +
          (cell k (record d (x ||| bit .red) (rootOf nn) (rootOf nf)) + (treeCells k nf +
            (treeCells k nn + (pathCells p path + (treeCells p t + m)))))))) (by abel))
        h1.right.valid.isLink).mpr hf
  have hnb : ¬ (k = 0 ∨ rbIsBlack s k = true) := by
    rw [rbIsBlack, hred]
    exact fun he => he.elim h1.right.right.valid.1 (by decide)
  obtain ⟨h2, h3, h4⟩ := eraseInner_holds (d := d) rotate h1
  have h5 := h3.of_eq (n := cell p (record d.flip (parentOf path ||| bit c) k (rootOf t)) +
    (cell k (record d.flip (x ||| bit .red) (rootOf (join d e (nf.paint .black) x far))
      (rootOf nn)) + (treeCells k nn + (treeCells p (join d e (nf.paint .black) x far) +
        (pathCells p path + (treeCells p t + m)))))) (by
    rw [record_flip, record_flip, treeCells_join, rootOf_join, rootOf_paint]
    abel)
  obtain ⟨h6, h7⟩ := eraseOuter_holds rotate h5 (h4.trans h.root) (join_ne_nil _ _ _ _ _)
  rw [rootOf_join] at h6 h7
  rw [eraseTurn]
  simp only [hfar, if_pos hblack, hk, if_neg hnb, h2]
  refine ⟨trivial, h6.of_eq ?_, ?_⟩
  · simp only [treeCells_join, rootOf_join, rootOf_paint, record_flip, paint_join]
    abel
  · rw [rootOf_join]
    exact h7

/-- Case 2: the sibling `x` turns red, and so the parent may be short of a black node. -/
theorem eraseTurn_flip (h : Focus s t (⟨d, c, p, join d e near x far⟩ :: path) m)
    (hn : near.color = .black) (hf : far.color = .black) :
    (eraseTurn rotate d p x s).2 = decide (c = .black) ∧ Focus (eraseTurn rotate d p x s).1
      (join d .black t p (join d .red near x far)) path m := by
  have h1 := h.frame.of_eq (n := cell x (record d (p ||| bit e) (rootOf near) (rootOf far)) +
    (cell p (record d (parentOf path ||| bit c) (rootOf t) x) + (treeCells x near +
      (treeCells x far + (pathCells p path + (treeCells p t + m)))))) (by
    rw [treeCells_join, rootOf_join]
    abel)
  obtain ⟨hnear, hfar⟩ := holds_child h1
  have hblack : rootOf far = 0 ∨ rbIsBlack s (rootOf far) = true :=
    (color_black_iff (h1.of_eq (n := treeCells x far +
      (cell x (record d (p ||| bit e) (rootOf near) (rootOf far)) +
        (cell p (record d (parentOf path ||| bit c) (rootOf t) x) + (treeCells x near +
          (pathCells p path + (treeCells p t + m)))))) (by abel)) h1.valid.isLink).mpr hf
  have hblack' : rootOf near = 0 ∨ rbIsBlack s (rootOf near) = true :=
    (color_black_iff (h1.of_eq (n := treeCells x near +
      (cell x (record d (p ||| bit e) (rootOf near) (rootOf far)) +
        (cell p (record d (parentOf path ||| bit c) (rootOf t) x) + (treeCells x far +
          (pathCells p path + (treeCells p t + m)))))) (by abel)) h1.valid.isLink).mpr hn
  have h2 := (setWord_holds h1 (p ||| bit .red)).of_eq (n :=
    cell p (record d (parentOf path ||| bit c) (rootOf t) x) + (pathCells p path +
      (cell x (record d (p ||| bit .red) (rootOf near) (rootOf far)) + (treeCells x near +
        (treeCells x far + (treeCells p t + m)))))) (by abel)
  have hcol := (holds_parent h2 (parentOf_isLink h2.right)).2
  rw [eraseTurn]
  simp only [hfar, if_pos hblack, hnear, if_pos hblack']
  have hred : rbIsRed (rbSetParentColor s x p rbRed) p = decide (c = .red) := by
    change (rbColor _ p == 0) = _
    rw [show rbColor (rbSetParentColor s x p rbRed) p = bit c from hcol]
    cases c <;> rfl
  have hfinal : treeCells (parentOf path) (join d .black t p (join d .red near x far)) +
      pathCells (rootOf (join d .black t p (join d .red near x far))) path + m =
      cell p (record d (parentOf path ||| bit .black) (rootOf t) x) + (pathCells p path +
        (cell x (record d (p ||| bit .red) (rootOf near) (rootOf far)) + (treeCells x near +
          (treeCells x far + (treeCells p t + m))))) := by
    simp only [treeCells_join, rootOf_join]
    abel
  rw [hred]
  cases c with
  | red =>
    have hword : (rbSetParentColor s x p rbRed).word p ||| rbBlack = parentOf path ||| bit .black := by
      rw [show (rbSetParentColor s x p rbRed).word p = _ from holds_word h2, or_red]
      rfl
    have h3 := setWord_holds h2 ((rbSetParentColor s x p rbRed).word p ||| rbBlack)
    rw [hword] at h3
    rw [if_pos (by decide), rbSetBlack, hword]
    refine ⟨rfl, h3.of_eq hfinal.symm, ?_⟩
    rw [rootOf_join]
    exact h.root
  | black =>
    refine ⟨rfl, h2.of_eq hfinal.symm, ?_⟩
    rw [rootOf_join]
    exact h.root

theorem eraseTurn_focus {f : Frame ℕ} (h : Focus s t (f :: path) m) (hs : f.sib ≠ .nil) :
    (eraseTurn rotate f.side f.key (rootOf f.sib) s).2 =
      (settleErase f.side f.color t f.key f.sib).2 ∧
    Focus (eraseTurn rotate f.side f.key (rootOf f.sib) s).1
      (settleErase f.side f.color t f.key f.sib).1 path m := by
  obtain ⟨d, c, p, u⟩ := f
  dsimp only at hs ⊢
  rcases settleErase_cases (c := c) (t := t) (p := p) d hs with
    ⟨e, near, x, far, rfl, hf, hset⟩ | ⟨e, nn, k, nf, x, far, rfl, hf, hset⟩ |
      ⟨e, near, x, far, rfl, hn, hf, hset⟩
  · rw [hset, rootOf_join]
    exact eraseTurn_outer rotate h hf
  · rw [hset, rootOf_join]
    exact eraseTurn_inner rotate h hf
  · rw [hset, rootOf_join]
    exact eraseTurn_flip rotate h hn hf

theorem settleErase_true (hu : u ≠ .nil) (h : (settleErase d c t p u).2 = true) :
    (settleErase d c t p u).1 ≠ .nil ∧ rootOf (settleErase d c t p u).1 = p := by
  rcases settleErase_cases (c := c) (t := t) (p := p) d hu with
    ⟨e, near, x, far, rfl, -, hset⟩ | ⟨e, nn, k, nf, x, far, rfl, -, hset⟩ |
      ⟨e, near, x, far, rfl, -, -, hset⟩
  · rw [hset] at h
    cases h
  · rw [hset] at h
    cases h
  · rw [hset]
    exact ⟨join_ne_nil _ _ _ _ _, rootOf_join ..⟩

theorem Focus.side_of_sib {f : Frame ℕ} (h : Focus s t (f :: path) m) (hs : f.sib ≠ .nil) :
    (if rootOf t ≠ s.child f.key .right then Side.left else Side.right) = f.side ∧
      s.child f.key f.side.flip = rootOf f.sib := by
  obtain ⟨h1, h2⟩ := holds_child h.frame
  refine ⟨?_, h2⟩
  cases hd : f.side with
  | left =>
    rw [hd] at h2
    have hne : rootOf f.sib ≠ rootOf t := rootOf_ne_rootOf (h.frame.right.of_eq (n :=
      treeCells f.key f.sib + (treeCells f.key t + (pathCells f.key path + m))) rfl) hs
    exact if_pos fun he => hne (h2.symm.trans he.symm)
  | right =>
    rw [hd] at h1
    exact if_neg fun he => he h1.symm

theorem settleErase_red (hu : u ≠ .nil) : (settleErase d .red t p u).2 = false := by
  rcases settleErase_cases (c := .red) (t := t) (p := p) d hu with
    ⟨_, _, _, _, _, -, hset⟩ | ⟨_, _, _, _, _, _, _, -, hset⟩ | ⟨_, _, _, _, _, -, -, hset⟩
  · rw [hset]
  · rw [hset]
  · rw [hset]
    rfl

/-- One turn of the loop repairs the tree, or it moves the missing black node one step up. -/
theorem eraseColor_turn {f : Frame ℕ} (h : Focus s t (f :: path) m) (ht : Balanced t k)
    (hp : PathBalanced (f :: path) (k + 1)) (n : ℕ) :
    (∃ s', ____rbEraseColor rotate (n + 1) (rootOf t) f.key s = some s' ∧
      Focus s' (fixErase t (f :: path)) [] m) ∨
    ∃ s' u, fixErase t (f :: path) = fixErase u path ∧ Focus s' u path m ∧ u ≠ .nil ∧
      Balanced u (k + 1) ∧ u.color = .black ∧ PathBalanced path (k + 2) ∧
      ____rbEraseColor rotate (n + 1) (rootOf t) f.key s =
        if parentOf path ≠ 0 then ____rbEraseColor rotate n (rootOf u) (parentOf path) s'
        else some s' := by
  have hs := hp.sib.ne_nil
  obtain ⟨hside, hsib⟩ := h.side_of_sib hs
  have hlink : IsLink f.key := h.frame.valid.isLink
  have hred := color_red_iff (h.frame.right) hlink
  have hroot : rootOf f.sib ≠ 0 := (rootOf_valid h.frame.right hs).1
  rw [____rbEraseColor]
  simp only [hside, hsib]
  cases cu : f.sib.color with
  | red =>
    simp only [if_pos (hred.mpr cu).2]
    obtain ⟨d, c, p, u⟩ := f
    obtain ⟨e, near, x, far, rfl⟩ := exists_join d hs
    obtain rfl : e = .red := (color_join ..).symm.trans cu
    obtain ⟨h1, -, c1, -⟩ := hp.sib.of_join_red
    have hpaint : near.paint .black ≠ .nil := by
      rw [paint_of_color c1]
      exact h1.ne_nil
    obtain ⟨h2, h3⟩ := eraseRotate_focus rotate h h1.ne_nil
    obtain ⟨h4, h5⟩ := eraseTurn_focus rotate h3 hpaint
    dsimp only at h4 h5
    rw [settleErase_red hpaint, rootOf_paint] at h4
    rw [rootOf_paint] at h5
    refine .inl ⟨(eraseTurn rotate d p (rootOf near) (eraseRotate rotate d p x s).1).1, ?_, ?_⟩
    · simp only [rootOf_join, h2, h4, Bool.false_eq_true, if_false]
    · rw [fixErase_red]
      exact focus_plug.mpr h5
  | black =>
    have hb : ¬ rbIsRed s (rootOf f.sib) = true := fun he => by
      cases cu.symm.trans (hred.mp ⟨hroot, he⟩)
    simp only [if_neg hb]
    obtain ⟨h4, h5⟩ := eraseTurn_focus rotate h hs
    rw [h4, fixErase_black t cu]
    rcases settleErase_balanced (d := f.side) (c := f.color) (p := f.key) ht hp.sib cu with
      ⟨h1, -, -⟩ | ⟨h1, hc, h2, h3⟩
    · rw [h1]
      exact .inl ⟨_, rfl, focus_plug.mpr h5⟩
    · obtain ⟨h6, h7⟩ := settleErase_true hs h1
      have hparent := h5.parent h6
      rw [h7] at hparent
      have hpath : PathBalanced path (k + 2) := by
        cases hp with
        | red => cases hc
        | black _ hp => exact hp
      refine .inr ⟨_, _, ?_, h5, h6, h2, h3, hpath, ?_⟩
      · rw [h1]
        rfl
      · rw [h1, hparent, h7]
        rfl

theorem eraseColor_focus {f : Frame ℕ} (h : Focus s t (f :: path) m) (ht : Balanced t k)
    (hp : PathBalanced (f :: path) (k + 1)) (hn : path.length < n) :
    ∃ s', ____rbEraseColor rotate n (rootOf t) f.key s = some s' ∧
      Focus s' (fixErase t (f :: path)) [] m := by
  induction path generalizing s t f n k with
  | nil =>
    obtain ⟨n, rfl⟩ := Nat.exists_eq_succ_of_ne_zero (Nat.ne_zero_of_lt hn)
    rcases eraseColor_turn rotate h ht hp n with h1 | ⟨s', u, h1, h2, -, -, -, -, h3⟩
    · exact h1
    · rw [h1]
      exact ⟨s', h3.trans (if_neg fun he => he rfl), h2⟩
  | cons g path ih =>
    obtain ⟨n, rfl⟩ := Nat.exists_eq_succ_of_ne_zero (Nat.ne_zero_of_lt hn)
    rcases eraseColor_turn rotate h ht hp n with h1 | ⟨s', u, h1, h2, -, h3, -, h4, h5⟩
    · exact h1
    · rw [h1, h5, parentOf_cons, if_pos h2.top.2.2]
      exact ih h2 h3 h4 (Nat.lt_of_succ_lt_succ hn)

end

end OurOS.Rbtree
