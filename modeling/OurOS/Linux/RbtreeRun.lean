import Mathlib.Data.List.Nodup
import OurOS.Lib.Run
import OurOS.Linux.RbtreeWalk

namespace OurOS.Rbtree

open RedBlack RedBlack.ColorTree Cells

variable {σ : Type}

inductive RbOp where
  | insert (node : ℕ) (link : RbLink)
  | erase (node : ℕ)
  | replace (victim new : ℕ)
deriving DecidableEq, Repr

/-- `rb_link_node` is followed by `rb_insert_color`. -/
def rbOp (n : ℕ) (s : RbSys σ) : RbOp → Option (RbSys σ)
  | .insert x link => rbInsertColor n x (rbLinkNode x link s)
  | .erase x => rbErase n x s
  | .replace victim new => some (rbReplaceNode victim new s)

def pair (x p : ℕ) : Side → List ℕ
  | .left => [x, p]
  | .right => [p, x]

/-- The new node stands directly before or after the one it is linked to. -/
def beside (x : ℕ) (d : Side) (p : ℕ) : List ℕ → List ℕ
  | [] => []
  | y :: ys => if y = p then pair x p d ++ ys else y :: beside x d p ys

def orderAfter (xs : List ℕ) : RbOp → List ℕ
  | .insert x .root => [x]
  | .insert x (.child p d) => beside x d p xs
  | .erase x => xs.erase x
  | .replace victim new => xs.map fun y => if y = victim then new else y

/-- The operation is on nodes of the tree, a new node is not in it, and its link is a null pointer. -/
def Legal (s : RbSys σ) (xs : List ℕ) : RbOp → Prop
  | .insert x .root => Aligned x ∧ x ∉ xs ∧ s.root = 0
  | .insert x (.child p d) => Aligned x ∧ x ∉ xs ∧ p ∈ xs ∧ s.child p d = 0
  | .erase x => x ∈ xs
  | .replace victim new => victim ∈ xs ∧ Aligned new ∧ new ∉ xs

instance Legal.decidable (s : RbSys σ) (xs : List ℕ) : ∀ op, Decidable (Legal s xs op)
  | .insert _ .root => inferInstanceAs (Decidable (_ ∧ _))
  | .insert _ (.child _ _) => inferInstanceAs (Decidable (_ ∧ _))
  | .erase _ => inferInstanceAs (Decidable (_ ∈ _))
  | .replace _ _ => inferInstanceAs (Decidable (_ ∧ _))

def RbOp.fresh : RbOp → List ℕ
  | .insert x _ => [x]
  | .erase _ => []
  | .replace _ new => [new]

/-- The memory holds a red-black tree whose nodes stand in the order `xs`. -/
def Represents (s : RbSys σ) (xs : List ℕ) : Prop :=
  ∃ t, Focus s t [] 0 ∧ IsRedBlack t ∧ t.inorder = xs

def turns (xs : List ℕ) : ℕ := 2 * Nat.log 2 (xs.length + 1) + 1

structure RbTrace (σ : Type) where
  sys : RbSys σ
  order : List ℕ

def RbTrace.step (t : RbTrace σ) (op : RbOp) : Option (RbTrace σ) :=
  (rbOp (turns t.order) t.sys op).map fun s => ⟨s, orderAfter t.order op⟩

section Replace

variable {s : RbSys σ} {l r : ColorTree ℕ} {path : List (Frame ℕ)} {x y : ℕ} {c : Color} {v : RbNode}
  {m : Multiset (ℕ × RbNode)}

theorem rbReplaceNode_focus (h : Focus s (.node c l x r) path (cell y v + m)) :
    Focus (rbReplaceNode x y s) (.node c l y r) path
      (cell x (record .left (parentOf path ||| bit c) (rootOf l) (rootOf r)) + m) := by
  obtain ⟨hp, h0⟩ := h.node
  have hx : IsLink x := h0.valid.isLink
  have hcopy := (h0.of_eq (n := cell y v + (cell x (record .left (parentOf path ||| bit c) (rootOf l)
    (rootOf r)) + (pathCells x path + (treeCells x l + (treeCells x r + m))))) (by abel)).write
    fun _ => s.node x
  have h1 : Holds Aligned (s.setNode y fun _ => s.node x).node (cell x (record .left
      (parentOf path ||| bit c) (rootOf l) (rootOf r)) + (treeCells x l + (treeCells x r +
        (pathCells x path + (cell y (record .left (parentOf path ||| bit c) (rootOf l) (rootOf r)) +
          m))))) := hcopy.of_eq (by
    rw [h0.read]
    abel)
  -- the subtrees
  have h2 := setParentIf_holds (h1.of_eq (n := treeCells x l + (cell x (record .left
    (parentOf path ||| bit c) (rootOf l) (rootOf r)) + (treeCells x r + (pathCells x path +
      (cell y (record .left (parentOf path ||| bit c) (rootOf l) (rootOf r)) + m))))) (by abel)) hx y
  have hright := (holds_child (h2.of_eq (n := cell x (record .left
    (parentOf path ||| bit c) (rootOf l) (rootOf r)) + (treeCells y l + (treeCells x r +
      (pathCells x path + (cell y (record .left (parentOf path ||| bit c) (rootOf l) (rootOf r)) +
        m))))) (by abel))).2
  have h3 := setParentIf_holds (h2.of_eq (n := treeCells x r + (treeCells y l + (cell x (record .left
    (parentOf path ||| bit c) (rootOf l) (rootOf r)) + (pathCells x path +
      (cell y (record .left (parentOf path ||| bit c) (rootOf l) (rootOf r)) + m))))) (by abel)) hx y
  -- the parent
  obtain ⟨h4, h5⟩ := changeChild_holds (h3.of_eq (n := cell x (record .left
    (parentOf path ||| bit c) (rootOf l) (rootOf r)) + (pathCells x path + (treeCells y l +
      (treeCells y r + (cell y (record .left (parentOf path ||| bit c) (rootOf l) (rootOf r)) + m)))))
      (by abel)) (by split_ifs <;> exact h.root) y
  have hparent : rbParent s x = parentOf path := (holds_parent h0 hp).1
  dsimp only [Side.flip] at hright
  rw [rbReplaceNode]
  simp only [hparent, (holds_child h1).1, hright]
  refine ⟨h4.of_eq ?_, h5⟩
  rw [treeCells, rootOf]
  abel

end Replace

section Steps

variable {s : RbSys σ} {t l r : ColorTree ℕ} {path : List (Frame ℕ)} {xs pre post : List ℕ} {x y p : ℕ}
  {c : Color} {d : Side} {v : RbNode} {m : Multiset (ℕ × RbNode)} {op : RbOp}

theorem beside_append (hp : p ∉ pre) (x : ℕ) (d : Side) (post : List ℕ) :
    beside x d p (pre ++ p :: post) = pre ++ (pair x p d ++ post) := by
  induction pre with
  | nil => exact if_pos rfl
  | cons y pre ih =>
    rw [List.mem_cons, not_or] at hp
    rw [List.cons_append, beside, if_neg (Ne.symm hp.1), ih hp.2]
    rfl

theorem inorder_split (c : Color) (l : ColorTree ℕ) (x : ℕ) (r : ColorTree ℕ) (path : List (Frame ℕ)) :
    (plug (.node c l x r) path).inorder =
      (before path ++ l.inorder) ++ x :: (r.inorder ++ after path) := by
  rw [inorder_plug, inorder]
  simp

theorem Focus.notMem (h : Focus s (plug (.node c l x r) path) [] m) :
    x ∉ before path ++ l.inorder ∧ x ∉ r.inorder ++ after path := by
  have hn := h.nodup
  rw [inorder_split] at hn
  have hx := (List.nodup_cons.mp (List.nodup_middle.mp hn)).1
  rwa [List.mem_append, not_or] at hx

theorem exists_gap (h : Focus s t [] m) {link : RbLink} (hl : Legal s t.inorder (.insert x link)) :
    ∃ path, plug .nil path = t ∧ linkOf path = link ∧
      orderAfter t.inorder (.insert x link) = before path ++ x :: after path := by
  have hh := h.holds
  cases link with
  | root =>
    have hroot : rootOf t = 0 := h.root.symm.trans hl.2.2
    have ht : t = .nil := by
      by_contra hne
      rw [add_assoc] at hh
      exact (rootOf_valid hh hne).1 hroot
    exact ⟨[], ht.symm, rfl, rfl⟩
  | child p d =>
    obtain ⟨-, -, hp, hnull⟩ := hl
    obtain ⟨c, l, r, path, rfl⟩ := exists_plug_of_mem hp
    obtain ⟨-, h1⟩ := (focus_plug.mp h).node
    obtain ⟨h2, h3⟩ := holds_child h1
    rw [orderAfter, inorder_split, beside_append h.notMem.1]
    cases d with
    | left =>
      have hl : l = .nil := by
        by_contra hne
        exact (rootOf_valid h1.right.right hne).1 (h2.symm.trans hnull)
      subst hl
      exact ⟨⟨.left, c, p, r⟩ :: path, rfl, rfl, by simp [before, after, pair, inorder]⟩
    | right =>
      have hr : r = .nil := by
        by_contra hne
        exact (rootOf_valid h1.right.right.right hne).1 (h3.symm.trans hnull)
      subst hr
      exact ⟨⟨.right, c, p, l⟩ :: path, rfl, rfl, by simp [before, after, pair, inorder]⟩

theorem length_le_of_plug {n : ℕ} (hb : IsRedBlack (plug t path))
    (hn : turns (plug t path).inorder ≤ n) : path.length < n ∧ (plug t path).height ≤ n := by
  have h1 := IsRedBlack.height_le hb
  have h2 := height_add_length_le t path
  rw [turns] at hn
  omega

def freshCells (s : RbSys σ) (op : RbOp) : Multiset (ℕ × RbNode) :=
  (op.fresh.map fun x => (x, s.node x) : List (ℕ × RbNode))

theorem rbOp_focus (h : Focus s t [] (freshCells s op + m)) (hb : IsRedBlack t)
    (hl : Legal s t.inorder op) : ∃ s' t' m', rbOp (turns t.inorder) s op = some s' ∧
      Focus s' t' [] (m' + m) ∧ IsRedBlack t' ∧ t'.inorder = orderAfter t.inorder op := by
  cases op with
  | insert x link =>
    obtain ⟨path, rfl, rfl, hpath⟩ := exists_gap h hl
    obtain ⟨hlen, -⟩ := length_le_of_plug hb le_rfl
    have h1 : Focus s .nil path (cell x (s.node x) + m) := focus_plug.mp h
    obtain ⟨s', h2, h3⟩ := rbInsert_focus (dummyCallbacks σ).rotate h1 hb hlen
    obtain ⟨k, hp, hk, -⟩ := pathBalanced_of_plug hb
    cases hk
    have hred : Balanced (.node .red .nil x .nil) 0 := .red .nil .nil rfl rfl
    refine ⟨s', _, 0, h2, (zero_add m).symm ▸ h3, fixInsert_isRedBlack hred rfl hp, ?_⟩
    rw [inorder_fixInsert (by simp), inorder_plug, hpath]
    simp [inorder]
  | erase x =>
    obtain ⟨c, l, r, path, rfl⟩ := exists_plug_of_mem hl
    obtain ⟨-, hheight⟩ := length_le_of_plug hb le_rfl
    have h1 : Focus s (.node c l x r) path (0 + m) := focus_plug.mp h
    rw [zero_add] at h1
    obtain ⟨s', h2, h3⟩ := rbEraseAugmented_focus (dummyCallbacks σ) (fun _ _ _ => rfl) h1 hb hheight
    obtain ⟨h4, h5⟩ := eraseAt_spec hb
    refine ⟨s', _, _, h2, h3, h4, h5.trans ?_⟩
    rw [orderAfter, inorder_split, List.erase_append_right _ h.notMem.1, List.erase_cons_head]
    simp
  | replace victim new =>
    obtain ⟨c, l, r, path, rfl⟩ := exists_plug_of_mem hl.1
    have h1 : Focus s (.node c l victim r) path (cell new (s.node new) + m) := focus_plug.mp h
    refine ⟨_, _, _, rfl, focus_plug.mpr (rbReplaceNode_focus h1), isRedBlack_rekey hb new, ?_⟩
    obtain ⟨h2, h3⟩ := h.notMem
    have hsame : ∀ zs : List ℕ, victim ∉ zs →
        (zs.map fun y => if y = victim then new else y) = zs := fun zs hz =>
      (List.map_congr_left fun y hy => if_neg (ne_of_mem_of_not_mem hy hz)).trans (List.map_id' zs)
    rw [orderAfter, inorder_split, inorder_split, List.map_append, List.map_cons, hsame _ h2, hsame _ h3,
      if_pos rfl]

theorem Focus.extend (h : Focus s t [] m) (hy : Aligned y) (hn : y ∉ t.inorder)
    (hm : y ∉ m.map Prod.fst) : Focus s t [] (cell y (s.node y) + m) := by
  refine ⟨(h.holds.add hy ?_).of_eq (by abel), h.root⟩
  rw [pathCells, add_zero, Multiset.map_add, Multiset.mem_add, treeCells_keys, not_or]
  exact ⟨hn, hm⟩

theorem Focus.fresh (h : Focus s t [] m) (hl : Legal s t.inorder op)
    (hm : ∀ x ∈ op.fresh, x ∉ m.map Prod.fst) : Focus s t [] (freshCells s op + m) := by
  cases op with
  | insert x link =>
    have hx : Aligned x ∧ x ∉ t.inorder := by
      cases link with
      | root => exact ⟨hl.1, hl.2.1⟩
      | child p d => exact ⟨hl.1, hl.2.1⟩
    exact h.extend hx.1 hx.2 (hm x (by simp [RbOp.fresh]))
  | erase x => exact ((zero_add m).symm ▸ h : Focus s t [] (0 + m))
  | replace victim new => exact h.extend hl.2.1 hl.2.2 (hm new (by simp [RbOp.fresh]))

theorem mem_orderAfter (h : y ∈ orderAfter xs op) : y ∈ xs ∨ y ∈ op.fresh := by
  cases op with
  | insert x link =>
    cases link with
    | root => exact .inr h
    | child p d =>
      rw [RbOp.fresh, List.mem_singleton]
      rw [orderAfter] at h
      induction xs with
      | nil => cases h
      | cons z zs ih =>
        rw [beside] at h
        split_ifs at h with hz
        · rcases List.mem_append.mp h with h | h
          · cases d <;> simp only [pair, List.mem_cons, List.not_mem_nil, or_false] at h <;> grind
          · exact .inl (List.mem_cons_of_mem _ h)
        · rcases List.mem_cons.mp h with rfl | h
          · exact .inl List.mem_cons_self
          · exact (ih h).imp_left (List.mem_cons_of_mem _)
  | erase x => exact .inl (List.mem_of_mem_erase h)
  | replace victim new =>
    obtain ⟨z, hz, rfl⟩ := List.mem_map.mp h
    by_cases he : z = victim
    · exact .inr (by simp [RbOp.fresh, he])
    · exact .inl (by rwa [if_neg he])

theorem rbOp_represents (h : Represents s xs) (hl : Legal s xs op) :
    ∃ s', rbOp (turns xs) s op = some s' ∧ Represents s' (orderAfter xs op) ∧
      ∀ y, Aligned y → y ∉ xs → y ∉ op.fresh → s'.node y = s.node y := by
  obtain ⟨t, ht, hb, rfl⟩ := h
  obtain ⟨s', t', m', h1, h2, h3, h4⟩ := rbOp_focus (ht.fresh hl fun x _ => by simp) hb hl
  refine ⟨s', h1, ⟨t', ⟨h2.holds.left.of_eq (add_zero _).symm, h2.root⟩, h3, h4⟩, ?_⟩
  intro y hy hyt hyf
  have hframe := (ht.extend hy hyt (by simp)).fresh hl fun x hx => by
    have hne : x ≠ y := ne_of_mem_of_not_mem hx hyf
    simpa [cell] using hne
  obtain ⟨s'', t'', m'', h5, h6, -, -⟩ := rbOp_focus hframe hb hl
  obtain rfl : s' = s'' := Option.some.inj (h1.symm.trans h5)
  exact (h6.holds.of_eq (n := cell y (s.node y) + (treeCells (parentOf []) t'' +
    pathCells (rootOf t'') [] + m'')) (by abel)).read

end Steps

section Postorder

variable {t l r : ColorTree ℕ} {path : List (Frame ℕ)} {x : ℕ} {c : Color} {d : Side}

theorem rootOf_mem_postorder (ht : rootOf t ≠ 0) : rootOf t ∈ t.postorder := by
  cases t with
  | nil => exact absurd rfl ht
  | node c l x r => simp [postorder, rootOf]

theorem child_sublist_postorder (hd : rootOf ((ColorTree.node c l x r).child d) ≠ 0) :
    [rootOf ((ColorTree.node c l x r).child d), x].Sublist (plug (.node c l x r) path).postorder := by
  have hmem := List.singleton_sublist.mpr (rootOf_mem_postorder hd)
  have hx : [x].Sublist ([x] ++ postAhead path) := List.sublist_append_left _ _
  have hpost : (plug (.node c l x r) path).postorder =
      postBehind path ++ (l.postorder ++ (r.postorder ++ ([x] ++ postAhead path))) := by
    rw [postorder_plug, postorder]
    simp
  rw [hpost]
  refine List.Sublist.trans ?_ (List.sublist_append_right _ _)
  cases d with
  | left => exact hmem.append (hx.trans (List.sublist_append_right _ _))
  | right => exact (hmem.append hx).trans (List.sublist_append_right _ _)

end Postorder

section Run

variable {s : RbSys σ} {xs : List ℕ} {ops : List RbOp}

theorem runOps_represents (h : Represents s xs)
    (hc : RunMeets RbTrace.step (fun t op => Legal t.sys t.order op) ⟨s, xs⟩ ops) :
    ∃ t, runOps RbTrace.step ⟨s, xs⟩ ops = some t ∧ Represents t.sys t.order ∧
      ∀ y, Aligned y → y ∉ xs → (∀ op ∈ ops, y ∉ op.fresh) → t.sys.node y = s.node y := by
  induction ops generalizing s xs with
  | nil => exact ⟨⟨s, xs⟩, rfl, h, fun _ _ _ _ => rfl⟩
  | cons op ops ih =>
    obtain ⟨s', h1, h2, h3⟩ := rbOp_represents h hc.1
    have hstep : RbTrace.step ⟨s, xs⟩ op = some ⟨s', orderAfter xs op⟩ := by
      simp only [RbTrace.step, h1, Option.map_some]
    obtain ⟨t, h4, h5, h6⟩ := ih h2 (hc.2 _ hstep)
    refine ⟨t, ?_, h5, ?_⟩
    · rw [runOps, hstep]
      exact h4
    · intro y hy hyx hyo
      have hyf := hyo op List.mem_cons_self
      have hnot : y ∉ orderAfter xs op := fun hm => (mem_orderAfter hm).elim hyx hyf
      rw [h6 y hy hnot fun op' hop => hyo op' (List.mem_cons_of_mem _ hop), h3 y hy hyx hyf]

theorem represents_nil (h : s.root = 0) : Represents s [] := by
  refine ⟨.nil, ⟨⟨?_, ?_, ?_⟩, h⟩, ⟨rfl, 0, .nil⟩, rfl⟩
  · simp [treeCells, pathCells]
  · simp [treeCells, pathCells]
  · simp [treeCells, pathCells]

theorem rbRun_represents (h0 : s.root = 0)
    (hc : RunMeets RbTrace.step (fun t op => Legal t.sys t.order op) ⟨s, []⟩ ops) :
    ∃ t, runOps RbTrace.step ⟨s, []⟩ ops = some t ∧ Represents t.sys t.order ∧
      ∀ y, Aligned y → (∀ op ∈ ops, y ∉ op.fresh) → t.sys.node y = s.node y := by
  obtain ⟨t, h1, h2, h3⟩ := runOps_represents (represents_nil h0) hc
  exact ⟨t, h1, h2, fun y hy hyo => h3 y hy List.not_mem_nil hyo⟩

def emptyTree : RbSys Unit := ⟨fun _ => ⟨0, 0, 0⟩, 0, ()⟩

def someOps : List RbOp :=
  [.insert 4096 .root, .insert 4112 (.child 4096 .right), .insert 4128 (.child 4112 .right),
    .insert 4144 (.child 4128 .right), .erase 4112, .replace 4096 8192]

theorem rbRun_represents_someOps : ∃ t, runOps RbTrace.step ⟨emptyTree, []⟩ someOps = some t ∧
    Represents t.sys t.order ∧
      ∀ y, Aligned y → (∀ op ∈ someOps, y ∉ op.fresh) → t.sys.node y = emptyTree.node y :=
  rbRun_represents rfl (by decide +kernel)

theorem rbRun_walks (h0 : s.root = 0)
    (hc : RunMeets RbTrace.step (fun t op => Legal t.sys t.order op) ⟨s, []⟩ ops) :
    ∃ t first last, runOps RbTrace.step ⟨s, []⟩ ops = some t ∧
      rbFirst t.sys (turns t.order) = some first ∧
      forEach (rbNext t.sys (turns t.order)) (t.order.length + 1) first = some t.order ∧
      rbLast t.sys (turns t.order) = some last ∧
      forEach (rbPrev t.sys (turns t.order)) (t.order.length + 1) last = some t.order.reverse := by
  obtain ⟨tr, h1, ⟨t, h2, hb, ht⟩, -⟩ := runOps_represents (represents_nil h0) hc
  obtain ⟨-, hheight⟩ := @length_le_of_plug t [] _ hb le_rfl
  have hzero := h2.zero_notMem
  rw [plug, ht] at hheight
  rw [ht] at hzero
  refine ⟨tr, tr.order.headD 0, tr.order.reverse.headD 0, h1, ?_, ?_, ?_, ?_⟩
  · rw [← ht] at hheight ⊢
    exact rbEnd_spec h2 hheight
  · refine forEach_eq hzero (fun pre x post he => ?_) (Nat.lt_succ_self _)
    exact rbStep_split h2 hheight (ht.trans he)
  · rw [← ht] at hheight ⊢
    exact rbEnd_spec h2 hheight
  · refine forEach_eq (by simpa using hzero) (fun pre x post he => ?_) (by simp)
    exact rbStep_split h2 hheight ((congrArg List.reverse ht).trans he)

theorem rbRun_walks_someOps : ∃ t first last, runOps RbTrace.step ⟨emptyTree, []⟩ someOps = some t ∧
    rbFirst t.sys (turns t.order) = some first ∧
    forEach (rbNext t.sys (turns t.order)) (t.order.length + 1) first = some t.order ∧
    rbLast t.sys (turns t.order) = some last ∧
    forEach (rbPrev t.sys (turns t.order)) (t.order.length + 1) last = some t.order.reverse :=
  rbRun_walks rfl (by decide +kernel)

theorem rbRun_postorder (h0 : s.root = 0)
    (hc : RunMeets RbTrace.step (fun t op => Legal t.sys t.order op) ⟨s, []⟩ ops) :
    ∃ t first xs, runOps RbTrace.step ⟨s, []⟩ ops = some t ∧
      rbFirstPostorder t.sys (turns t.order) = some first ∧
      forEach (rbNextPostorder t.sys (turns t.order)) (t.order.length + 1) first = some xs ∧
      xs.Perm t.order ∧
      ∀ x ∈ t.order, ∀ d, t.sys.child x d ≠ 0 → [t.sys.child x d, x].Sublist xs := by
  obtain ⟨tr, h1, ⟨t, h2, hb, ht⟩, -⟩ := runOps_represents (represents_nil h0) hc
  obtain ⟨-, hheight⟩ := @length_le_of_plug t [] _ hb le_rfl
  have hperm := postorder_perm t
  rw [plug, ht] at hheight
  rw [ht] at hperm
  have hzero : 0 ∉ t.postorder := fun hm => h2.zero_notMem (ht ▸ hperm.mem_iff.mp hm)
  refine ⟨tr, t.postorder.headD 0, t.postorder, h1, ?_, ?_, hperm, ?_⟩
  · exact rbFirstPostorder_spec h2 hheight
  · refine forEach_eq hzero (fun pre x post he => ?_) (by rw [hperm.length_eq]; exact Nat.lt_succ_self _)
    exact rbNextPostorder_split h2 hheight he
  · intro x hx d hd
    rw [← ht] at hx
    obtain ⟨c, l, r, path, rfl⟩ := exists_plug_of_mem hx
    have hchild := ((focus_plug.mp h2).child d).1
    rw [hchild] at hd ⊢
    exact child_sublist_postorder hd

theorem rbRun_postorder_someOps : ∃ t first xs,
    runOps RbTrace.step ⟨emptyTree, []⟩ someOps = some t ∧
    rbFirstPostorder t.sys (turns t.order) = some first ∧
    forEach (rbNextPostorder t.sys (turns t.order)) (t.order.length + 1) first = some xs ∧
    xs.Perm t.order ∧
    ∀ x ∈ t.order, ∀ d, t.sys.child x d ≠ 0 → [t.sys.child x d, x].Sublist xs :=
  rbRun_postorder rfl (by decide +kernel)

end Run

end OurOS.Rbtree
