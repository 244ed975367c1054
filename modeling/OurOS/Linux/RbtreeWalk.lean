import OurOS.Linux.RbtreeEraseNode
import OurOS.Lib.TreeWalk

namespace OurOS.Rbtree

open RedBlack RedBlack.ColorTree Cells

variable {σ : Type} {s : RbSys σ} {t u l r : ColorTree ℕ} {path : List (Frame ℕ)} {x y p n : ℕ} {c : Color}
  {d : Side} {m M : Multiset (ℕ × RbNode)}

theorem height_lt_join (d : Side) (c : Color) (t : ColorTree ℕ) (x : ℕ) (u : ColorTree ℕ) :
    t.height < (join d c t x u).height ∧ u.height < (join d c t x u).height := by
  cases d <;> simp only [join, height] <;> omega

theorem deepest_spec (h : Holds Aligned s.node (treeCells p t + M)) (ht : t ≠ .nil)
    (hn : t.height ≤ n) : deepest s d n (rootOf t) = some ((t.order d.flip).headD 0) := by
  induction n generalizing t p M with
  | zero =>
    obtain ⟨c, v, x, u, rfl⟩ := exists_join d ht
    exact absurd hn (Nat.not_le_of_lt (Nat.zero_lt_of_lt (height_lt_join d c v x u).1))
  | succ n ih =>
    obtain ⟨c, v, x, u, rfl⟩ := exists_join d ht
    rw [treeCells_join, add_assoc, add_assoc] at h
    have hchild := (holds_child h).1
    have horder := order_join d.flip c v x u
    rw [Side.flip_flip] at horder
    rw [rootOf_join, deepest, hchild, horder]
    cases hv : v with
    | nil => rw [rootOf_nil, if_neg fun he => he rfl, order_nil, List.nil_append, List.headD_cons]
    | node c' l' x' r' =>
      rw [← hv]
      have hne : v ≠ .nil := by simp [hv]
      have hlt := (height_lt_join d c v x u).1
      rw [if_pos (rootOf_valid h.right hne).1, ih h.right hne (by omega),
        headD_append (order_ne_nil _ hne)]

theorem Focus.rootOf_eq_child {f : Frame ℕ} (h : Focus s t (f :: path) m) (ht : t ≠ .nil) :
    rootOf t = s.child f.key d ↔ f.side = d := by
  obtain ⟨h1, h2⟩ := holds_child h.frame
  constructor
  · intro he
    by_contra hne
    rw [← Side.eq_flip_of_ne (Ne.symm hne)] at h2
    exact rootOf_ne_rootOf (h.frame.right.of_eq (n := treeCells f.key t +
      (treeCells f.key f.sib + (pathCells f.key path + m))) (by abel)) ht (he.trans h2)
  · rintro rfl
    exact h1.symm

theorem climb_spec (h : Focus s t path m) (ht : t ≠ .nil) (hn : path.length < n) :
    climb s d n (rootOf t) = some ((ahead d path).headD 0) := by
  induction path generalizing t n with
  | nil =>
    obtain ⟨n, rfl⟩ := Nat.exists_eq_succ_of_ne_zero (Nat.ne_zero_of_lt hn)
    have hp : rbParent s (rootOf t) = 0 := h.parent ht
    simp only [climb, hp, ahead_nil]
    rfl
  | cons f path ih =>
    obtain ⟨n, rfl⟩ := Nat.exists_eq_succ_of_ne_zero (Nat.ne_zero_of_lt hn)
    have hp : rbParent s (rootOf t) = f.key := h.parent ht
    have hf := h.top.2.2
    have hup := focus_up.mpr h
    obtain ⟨e, c, y, u⟩ := f
    simp only [climb, hp]
    by_cases hd : e = d
    · subst hd
      rw [if_pos ⟨hf, (h.rootOf_eq_child ht).mpr rfl⟩, ahead_same]
      have := ih hup (join_ne_nil _ _ _ _ _) (Nat.lt_of_succ_lt_succ hn)
      rwa [rootOf_join] at this
    · have hne : ¬ (y ≠ 0 ∧ rootOf t = s.child y d) := fun he => hd ((h.rootOf_eq_child ht).mp he.2)
      rw [if_neg hne, Side.eq_flip_of_ne hd, ahead_flip, List.headD_cons]

theorem Focus.not_empty (h : Focus s (.node c l x r) path m) : s.word x ≠ x := by
  obtain ⟨hp, h1⟩ := h.node
  have hx := h1.valid
  have hne : parentOf path ≠ x := by
    cases path with
    | nil => exact fun he => hx.1 he.symm
    | cons f path =>
      rw [pathCells, add_assoc] at h1
      exact h1.ne
  rw [holds_word h1, or_bit hp]
  cases c with
  | red => exact hne
  | black =>
    have h2 := hp.1
    have h3 := hx.2.1
    simp only [bit, rbBlack]
    omega

theorem Focus.child (h : Focus s (.node c l x r) path m) (e : Side) :
    s.child x e = rootOf ((ColorTree.node c l x r).child e) ∧
      (∃ M, Holds Aligned s.node (treeCells x ((ColorTree.node c l x r).child e) + M)) ∧
      ((ColorTree.node c l x r).child e).height < (ColorTree.node c l x r).height := by
  obtain ⟨-, h1⟩ := h.node
  cases e with
  | left => exact ⟨(holds_child h1).1, ⟨_, h1.right.right⟩, by simp only [ColorTree.child, height]; omega⟩
  | right =>
    exact ⟨(holds_child h1).2, ⟨_, h1.right.right.right⟩, by simp only [ColorTree.child, height]; omega⟩

theorem rbStep_spec (h : Focus s (.node c l x r) path m)
    (hn : (plug (.node c l x r) path).height ≤ n) :
    rbStep s d n x = some ((((ColorTree.node c l x r).child d).order d ++ ahead d path).headD 0) := by
  have hlen := (height_add_length_le (.node c l x r) path).trans hn
  obtain ⟨h2, ⟨M, h3⟩, h4⟩ := h.child d
  have hempty := h.not_empty
  rw [rbStep, if_neg hempty, h2]
  by_cases hnil : (ColorTree.node c l x r).child d = .nil
  · rw [hnil, rootOf_nil, if_neg fun he => he rfl, order_nil, List.nil_append]
    have hup := climb_spec (d := d) (n := n) h (by simp) (by rw [height] at hlen; omega)
    exact hup
  · rw [if_pos (rootOf_valid h3 hnil).1]
    have hdown := deepest_spec (d := d.flip) (n := n) h3 hnil (by omega)
    rw [Side.flip_flip] at hdown
    rw [hdown, headD_append (order_ne_nil _ hnil)]

section PostOrder

theorem leftDeepest_spec (h : Holds Aligned s.node (treeCells p t + M)) (ht : t ≠ .nil)
    (hn : t.height ≤ n) : rbLeftDeepestNode s n (rootOf t) = some (t.postorder.headD 0) := by
  induction t generalizing p M n with
  | nil => exact absurd rfl ht
  | node c l x r ihl ihr =>
    obtain ⟨n, rfl⟩ := Nat.exists_eq_succ_of_ne_zero (Nat.ne_zero_of_lt hn)
    rw [treeCells, add_assoc, add_assoc] at h
    obtain ⟨h1, h2⟩ := holds_child h
    dsimp only [Side.flip] at h2
    rw [height] at hn
    rw [rootOf, rbLeftDeepestNode, h1, h2, postorder]
    by_cases hl : l = .nil
    · subst hl
      rw [rootOf_nil, if_neg fun he => he rfl, postorder, List.nil_append]
      by_cases hr : r = .nil
      · subst hr
        rw [rootOf_nil, if_neg fun he => he rfl]
        rfl
      · rw [if_pos (rootOf_valid h.right.right hr).1, ihr h.right.right hr (by omega),
          headD_append (postorder_ne_nil hr)]
    · rw [if_pos (rootOf_valid h.right hl).1, ihl h.right hl (by omega),
        headD_append (postorder_ne_nil hl)]

theorem rbNextPostorder_spec (h : Focus s t path m) (ht : t ≠ .nil)
    (hn : (plug t path).height ≤ n) :
    rbNextPostorder s n (rootOf t) = some ((postAhead path).headD 0) := by
  have hp : rbParent s (rootOf t) = parentOf path := h.parent ht
  have hh := h.holds
  rw [add_assoc] at hh
  rw [rbNextPostorder, if_neg (rootOf_valid hh ht).1, hp]
  cases path with
  | nil => rfl
  | cons f path =>
    have hleft : rootOf t = s.child f.key .left ↔ f.side = .left := h.rootOf_eq_child ht
    have hf : f.key ≠ 0 := h.top.2.2
    have hsib := (holds_child h.frame).2
    obtain ⟨d, c, y, u⟩ := f
    dsimp only at hleft hf hsib ⊢
    simp only [parentOf_cons, hleft]
    cases d with
    | right =>
      simp only [reduceCtorEq, false_and, and_false, if_false]
      rfl
    | left =>
      dsimp only [Side.flip] at hsib
      rw [hsib]
      by_cases hu : u = .nil
      · subst hu
        rw [if_neg fun he => he.2.2 rfl]
        rfl
      · have hlen := height_add_length_le (join .left c t y u) path
        have hlt := (height_lt_join .left c t y u).2
        have hdeep : u.height ≤ n := by
          rw [plug] at hn
          exact hlt.le.trans ((Nat.le_of_add_right_le hlen).trans hn)
        rw [if_pos ⟨hf, rfl, (rootOf_valid h.frame.right hu).1⟩,
          leftDeepest_spec h.frame.right hu hdeep]
        exact congrArg some (headD_append (postorder_ne_nil hu) _ 0).symm

end PostOrder

section Lists

theorem treeCells_keys (p : ℕ) (t : ColorTree ℕ) : (treeCells p t).map Prod.fst = (t.inorder : Multiset ℕ) := by
  induction t generalizing p with
  | nil => rfl
  | node c l x r ihl ihr =>
    rw [treeCells, Multiset.map_add, Multiset.map_add, ihl, ihr, cell, Multiset.map_singleton,
      Multiset.singleton_add, inorder, Multiset.coe_add, Multiset.cons_coe]
    exact Multiset.coe_eq_coe.mpr List.perm_middle.symm

theorem Focus.nodup (h : Focus s t [] m) : t.inorder.Nodup := by
  have hn := h.holds.left.left.nodup
  rwa [treeCells_keys] at hn

theorem Focus.aligned (h : Focus s t [] m) (hx : x ∈ t.inorder) : Aligned x := by
  have hm : x ∈ (treeCells (parentOf []) t).map Prod.fst := by
    rw [treeCells_keys]
    exact hx
  obtain ⟨e, he, rfl⟩ := Multiset.mem_map.mp hm
  exact h.holds.left.left.ok e he

theorem Focus.zero_notMem (h : Focus s t [] m) : 0 ∉ t.inorder := fun h0 => (h.aligned h0).1 rfl

theorem rbStep_split (h : Focus s t [] m) (hn : t.height ≤ n) {pre post : List ℕ}
    (ht : t.order d = pre ++ x :: post) : rbStep s d n x = some (post.headD 0) := by
  have hnodup : (t.order d).Nodup := by
    cases d with
    | left => exact List.nodup_reverse.mpr h.nodup
    | right => exact h.nodup
  have hx : x ∈ t.inorder := by
    have hm : x ∈ t.order d := ht ▸ List.mem_append_right _ List.mem_cons_self
    cases d with
    | left => exact List.mem_reverse.mp hm
    | right => exact hm
  obtain ⟨c, l, r, path, rfl⟩ := exists_plug_of_mem hx
  have hjoin : (ColorTree.node c l x r).order d =
      ((ColorTree.node c l x r).child d.flip).order d ++ x :: ((ColorTree.node c l x r).child d).order d := by
    cases d with
    | left => exact order_join .left c r x l
    | right => exact order_join .right c l x r
  rw [rbStep_spec (focus_plug.mp h) hn]
  rw [order_plug, hjoin, List.append_assoc, List.append_assoc, ← List.append_assoc,
    List.cons_append] at ht hnodup
  rw [eq_of_split hnodup ht]

theorem rbEnd_spec (h : Focus s t [] m) (hn : t.height ≤ n) :
    rbEnd s d n = some ((t.order d.flip).headD 0) := by
  have hroot : s.root = rootOf t := h.root
  rw [rbEnd, hroot]
  by_cases ht : t = .nil
  · rw [ht, order_nil]
    rfl
  · have hh := h.holds
    rw [add_assoc] at hh
    rw [if_neg (rootOf_valid hh ht).1]
    exact deepest_spec hh ht hn

theorem rbNextPostorder_split (h : Focus s t [] m) (hn : t.height ≤ n) {pre post : List ℕ}
    (ht : t.postorder = pre ++ x :: post) : rbNextPostorder s n x = some (post.headD 0) := by
  have hnodup : t.postorder.Nodup := (postorder_perm t).nodup_iff.mpr h.nodup
  have hx : x ∈ t.inorder :=
    (postorder_perm t).mem_iff.mp (ht ▸ List.mem_append_right _ List.mem_cons_self)
  obtain ⟨c, l, r, path, rfl⟩ := exists_plug_of_mem hx
  rw [postorder_plug, postorder, ← List.append_assoc, ← List.append_assoc, List.append_assoc,
    List.singleton_append] at ht hnodup
  rw [← eq_of_split hnodup ht]
  exact rbNextPostorder_spec (focus_plug.mp h) (by simp) hn

theorem rbFirstPostorder_spec (h : Focus s t [] m) (hn : t.height ≤ n) :
    rbFirstPostorder s n = some (t.postorder.headD 0) := by
  have hroot : s.root = rootOf t := h.root
  rw [rbFirstPostorder, hroot]
  by_cases ht : t = .nil
  · rw [ht]
    rfl
  · have hh := h.holds
    rw [add_assoc] at hh
    rw [if_neg (rootOf_valid hh ht).1]
    exact leftDeepest_spec hh ht hn

end Lists

end OurOS.Rbtree
