import Mathlib.Data.List.Perm.Basic
import Mathlib.Logic.Relation

section

variable {α : Type}

inductive SwapStep (swaps : α → α → Prop) : List α → List α → Prop
  | swap (front rest : List α) {a b : α} : swaps a b →
      SwapStep swaps (front ++ a :: b :: rest) (front ++ b :: a :: rest)

abbrev SwapsTo (swaps : α → α → Prop) : List α → List α → Prop :=
  Relation.ReflTransGen (SwapStep swaps)

variable {swaps : α → α → Prop} {xs ys : List α}

theorem SwapsTo.perm (h : SwapsTo swaps xs ys) : ys.Perm xs := by
  induction h with
  | refl => rfl
  | tail _ ht ih =>
    cases ht with
    | swap front rest _ => exact ((List.Perm.swap ..).append_left front).trans ih

theorem SwapsTo.append_right (h : SwapsTo swaps xs ys) (zs : List α) :
    SwapsTo swaps (xs ++ zs) (ys ++ zs) := by
  induction h with
  | refl => exact .refl
  | tail _ ht ih =>
    cases ht with
    | swap front rest hab =>
      simp only [List.append_assoc, List.cons_append] at ih ⊢
      exact ih.tail (.swap front (rest ++ zs) hab)

theorem pair_sublist_swap {x y a b : α} {front rest : List α} (hne : ¬ (x = a ∧ y = b))
    (h : [x, y].Sublist (front ++ a :: b :: rest)) :
    [x, y].Sublist (front ++ b :: a :: rest) := by
  induction front with
  | nil =>
    cases h with
    | cons _ h =>
      cases h with
      | cons _ h => exact (h.cons _).cons _
      | cons_cons _ h => exact (h.cons _).cons_cons _
    | cons_cons _ h =>
      refine .cons _ (.cons_cons _ ?_)
      cases h with
      | cons _ h => exact h
      | cons_cons _ h => exact absurd ⟨rfl, rfl⟩ hne
  | cons f front ih =>
    cases h with
    | cons _ h => exact (ih h).cons _
    | cons_cons _ h =>
      have hmem : y ∈ front ++ a :: b :: rest := List.singleton_sublist.mp h
      have hmem' : y ∈ front ++ b :: a :: rest := by
        simp only [List.mem_append, List.mem_cons] at hmem ⊢
        exact hmem.imp_right or_left_comm.mp
      exact (List.singleton_sublist.mpr hmem').cons_cons _

theorem SwapsTo.pair_sublist (h : SwapsTo swaps xs ys) {x y : α} (hxy : ¬ swaps x y)
    (hs : [x, y].Sublist xs) : [x, y].Sublist ys := by
  induction h with
  | refl => exact hs
  | tail _ ht ih =>
    cases ht with
    | swap front rest hab =>
      refine pair_sublist_swap ?_ ih
      rintro ⟨rfl, rfl⟩
      exact hxy hab

end
