import Mathlib.Data.List.Nodup
import OurOS.Lib.RedBlack

namespace RedBlack

open ColorTree

variable {α : Type}

/-- The keys in the order in which a walk in the direction `d` meets them. -/
def ColorTree.order (d : Side) (t : ColorTree α) : List α :=
  match d with
  | .right => t.inorder
  | .left => t.inorder.reverse

/-- What a walk in the direction `d` meets after the subtree at the end of the path. -/
def ahead (d : Side) (path : List (Frame α)) : List α :=
  match d with
  | .right => after path
  | .left => (before path).reverse

def ColorTree.postorder : ColorTree α → List α
  | .nil => []
  | .node _ l x r => l.postorder ++ (r.postorder ++ [x])

/-- What a walk from the leaves to the root meets after the subtree at the end of the path. -/
def postAhead : List (Frame α) → List α
  | [] => []
  | f :: path => match f.side with
    | .left => f.sib.postorder ++ f.key :: postAhead path
    | .right => f.key :: postAhead path

def postBehind : List (Frame α) → List α
  | [] => []
  | f :: path => match f.side with
    | .left => postBehind path
    | .right => postBehind path ++ f.sib.postorder

section Order

variable {d : Side} {t u : ColorTree α} {path : List (Frame α)} {x : α} {c : Color}

@[simp] theorem order_nil (d : Side) : (nil : ColorTree α).order d = [] := by
  cases d <;> rfl

theorem order_join (d : Side) (c : Color) (t : ColorTree α) (x : α) (u : ColorTree α) :
    (join d.flip c t x u).order d = t.order d ++ x :: u.order d := by
  cases d <;> simp [order, join, inorder, Side.flip]

@[simp] theorem ahead_nil (d : Side) : ahead d ([] : List (Frame α)) = [] := by
  cases d <;> rfl

theorem ahead_same (d : Side) (c : Color) (x : α) (u : ColorTree α) (path : List (Frame α)) :
    ahead d (⟨d, c, x, u⟩ :: path) = ahead d path := by
  cases d <;> rfl

theorem ahead_flip (d : Side) (c : Color) (x : α) (u : ColorTree α) (path : List (Frame α)) :
    ahead d (⟨d.flip, c, x, u⟩ :: path) = x :: (u.order d ++ ahead d path) := by
  cases d <;> simp [ahead, order, before, after, Side.flip]

theorem order_plug (d : Side) (t : ColorTree α) (path : List (Frame α)) :
    (plug t path).order d = (ahead d.flip path).reverse ++ t.order d ++ ahead d path := by
  cases d <;> simp [order, ahead, inorder_plug, Side.flip]

theorem postorder_plug (t : ColorTree α) (path : List (Frame α)) :
    (plug t path).postorder = postBehind path ++ t.postorder ++ postAhead path := by
  induction path generalizing t with
  | nil => simp [plug, postBehind, postAhead]
  | cons f path ih =>
    obtain ⟨d, c, x, u⟩ := f
    rw [plug, ih]
    cases d <;> simp [join, postorder, postBehind, postAhead]

theorem order_ne_nil (d : Side) (ht : t ≠ nil) : t.order d ≠ [] := by
  obtain ⟨c, v, x, u, rfl⟩ := exists_join d.flip ht
  rw [order_join]
  exact List.append_ne_nil_of_right_ne_nil _ (List.cons_ne_nil _ _)

theorem postorder_ne_nil (ht : t ≠ nil) : t.postorder ≠ [] := by
  cases t with
  | nil => exact absurd rfl ht
  | node c l x r =>
    exact List.append_ne_nil_of_right_ne_nil _ (List.append_ne_nil_of_right_ne_nil _ (by simp))

theorem headD_append {xs : List α} (h : xs ≠ []) (ys : List α) (a : α) :
    (xs ++ ys).headD a = xs.headD a := by
  cases xs with
  | nil => exact absurd rfl h
  | cons x xs => rfl

theorem eq_of_split {xs ys pre post : List α} (hn : (xs ++ x :: ys).Nodup)
    (he : xs ++ x :: ys = pre ++ x :: post) : ys = post := by
  have hnot := (List.nodup_cons.mp (List.nodup_middle.mp hn)).1
  rw [List.mem_append, not_or] at hnot
  exact ((List.append_cons_inj_of_notMem hnot.1 hnot.2).mp he).2.2

theorem postorder_perm (t : ColorTree α) : t.postorder.Perm t.inorder := by
  induction t with
  | nil => exact .refl _
  | node c l x r ihl ihr =>
    refine ihl.append ?_
    exact (ihr.append_right [x]).trans (List.perm_append_singleton x r.inorder)

theorem exists_plug_of_mem (h : x ∈ t.inorder) :
    ∃ c l r path, t = plug (node c l x r) path := by
  induction t with
  | nil => cases h
  | node c l y r ihl ihr =>
    rcases List.mem_append.mp h with h | h
    · obtain ⟨c', l', r', path, hp⟩ := ihl h
      refine ⟨c', l', r', path ++ [⟨.left, c, y, r⟩], ?_⟩
      rw [plug_append, ← hp]
      rfl
    · rcases List.mem_cons.mp h with rfl | h
      · exact ⟨c, l, r, [], rfl⟩
      · obtain ⟨c', l', r', path, hp⟩ := ihr h
        refine ⟨c', l', r', path ++ [⟨.right, c, y, l⟩], ?_⟩
        rw [plug_append, ← hp]
        rfl

end Order

/-- The nodes that a walk by `next` meets from `x` on, up to the null pointer. -/
def forEach (next : ℕ → Option ℕ) : ℕ → ℕ → Option (List ℕ)
  | 0, _ => none
  | n + 1, x =>
    if x = 0 then some []
    else do
      let y ← next x
      let ys ← forEach next n y
      pure (x :: ys)

theorem forEach_eq {next : ℕ → Option ℕ} {xs : List ℕ} (h0 : 0 ∉ xs)
    (h : ∀ pre x post, xs = pre ++ x :: post → next x = some (post.headD 0)) {n : ℕ}
    (hn : xs.length < n) : forEach next n (xs.headD 0) = some xs := by
  induction xs generalizing n with
  | nil =>
    obtain ⟨n, rfl⟩ := Nat.exists_eq_succ_of_ne_zero (Nat.ne_zero_of_lt hn)
    rfl
  | cons x xs ih =>
    obtain ⟨n, rfl⟩ := Nat.exists_eq_succ_of_ne_zero (Nat.ne_zero_of_lt hn)
    have hx : x ≠ 0 := fun he => h0 (he ▸ List.mem_cons_self)
    have hnext := h [] x xs rfl
    have htail := ih (fun hm => h0 (List.mem_cons_of_mem _ hm))
      (fun pre y post he => h (x :: pre) y post (by rw [he]; rfl)) (Nat.lt_of_succ_lt_succ hn)
    rw [List.headD_cons, forEach, if_neg hx, hnext]
    simp only [Option.bind_eq_bind, Option.bind_some, htail]
    rfl

end RedBlack
