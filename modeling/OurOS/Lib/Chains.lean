import Mathlib.Data.List.Basic
import Mathlib.Data.List.Nodup
import Mathlib.Logic.Function.Basic
import Mathlib.Tactic.Common

/-- A chain of the table `next` that ends with the mark `stop`. -/
def Chain {α : Type} (next : α → α) (stop : α) : List α → Prop
  | [] => False
  | [c] => next c = stop
  | c :: d :: cs => next c = d ∧ Chain next stop (d :: cs)

structure Chains {α : Type} (next : α → α) (stop : α) (ls : List (List α)) : Prop where
  chain : ∀ l ∈ ls, Chain next stop l
  nodup : ls.flatten.Nodup

section Table

variable {α : Type} [DecidableEq α]

/-- The table after the chain that ends at `last` has been lengthened by the list. -/
def linkAll (stop : α) : (α → α) → α → List α → α → α
  | next, last, [] => Function.update next last stop
  | next, last, x :: xs => linkAll stop (Function.update next last x) x xs

/-- The table after the chain that ends at `last` has been lengthened, before it is closed. -/
def linkPath : (α → α) → α → List α → α → α
  | next, _, [] => next
  | next, last, x :: xs => linkPath (Function.update next last x) x xs

def setAll (next : α → α) (v : α) (l : List α) (c : α) : α := if c ∈ l then v else next c

variable {next next' : α → α} {stop : α} {l : List α}

omit [DecidableEq α] in
theorem Chain.congr (h : Chain next stop l) (he : ∀ c ∈ l, next' c = next c) :
    Chain next' stop l := by
  induction l with
  | nil => exact h
  | cons c cs ih =>
    cases cs with
    | nil => exact (he c List.mem_cons_self).trans h
    | cons d ds =>
      exact ⟨(he c List.mem_cons_self).trans h.1,
        ih h.2 fun x hx => he x (List.mem_cons_of_mem _ hx)⟩

omit [DecidableEq α] in
theorem Chain.next_mem (h : Chain next stop l) {c : α} (hc : c ∈ l) :
    next c ∈ l ∨ next c = stop := by
  induction l with
  | nil => cases hc
  | cons d ds ih =>
    cases ds with
    | nil =>
      obtain rfl := List.mem_singleton.mp hc
      exact .inr h
    | cons e es =>
      rcases List.mem_cons.mp hc with rfl | hc
      · exact .inl (by simp [h.1])
      · exact (ih h.2 hc).imp_left (List.mem_cons_of_mem _)

omit [DecidableEq α] in
theorem Chain.skip {c d : α} {ds : List α} (h : Chain next stop (c :: d :: ds))
    (hc : next' c = next d) (he : ∀ x ∈ ds, next' x = next x) : Chain next' stop (c :: ds) := by
  cases ds with
  | nil => exact hc.trans h.2
  | cons e es =>
    have hrest : Chain next stop (e :: es) := h.2.2
    exact ⟨hc.trans h.2.1, hrest.congr he⟩

omit [DecidableEq α] in
theorem Chain.push {c d : α} {ds : List α} (h : Chain next stop (c :: ds)) (hc : next' c = d)
    (hd : next' d = next c) (he : ∀ x ∈ ds, next' x = next x) :
    Chain next' stop (c :: d :: ds) := by
  cases ds with
  | nil => exact ⟨hc, hd.trans h⟩
  | cons e es => exact ⟨hc, hd.trans h.1, h.2.congr he⟩

theorem linkAll_of_not_mem {last : α} {xs : List α} {c : α} (hc : c ∉ last :: xs) :
    linkAll stop next last xs c = next c := by
  induction xs generalizing next last with
  | nil => exact Function.update_of_ne (fun e => hc (by simp [e])) _ _
  | cons x xs ih =>
    obtain ⟨h1, h2⟩ := not_or.mp fun e => hc (List.mem_cons.mpr e)
    rw [linkAll, ih h2, Function.update_of_ne h1]

theorem linkAll_eq {last : α} {xs : List α} : linkAll stop next last xs =
    Function.update (linkPath next last xs) (xs.getLastD last) stop := by
  induction xs generalizing next last with
  | nil => rfl
  | cons x xs ih => rw [linkAll, linkPath, ih, List.getLastD_cons]

theorem linkAll_chain {last : α} {xs : List α} (hnd : (last :: xs).Nodup) :
    Chain (linkAll stop next last xs) stop (last :: xs) := by
  induction xs generalizing next last with
  | nil => exact Function.update_self _ _ _
  | cons x xs ih =>
    obtain ⟨h1, h2⟩ := List.nodup_cons.mp hnd
    refine ⟨?_, ih h2⟩
    rw [linkAll, linkAll_of_not_mem h1, Function.update_self]

namespace Chains

variable {as bs : List (List α)}

omit [DecidableEq α] in
theorem apart (h : Chains next stop (as ++ l :: bs)) {c : α} (hc : c ∈ l) :
    c ∉ (as ++ bs).flatten := by
  have hnd := h.nodup
  simp only [List.flatten_append, List.flatten_cons] at hnd ⊢
  intro hm
  rcases List.mem_append.mp hm with hm | hm
  · exact (List.nodup_append.mp hnd).2.2 c hm c (List.mem_append_left _ hc) rfl
  · exact (List.nodup_append.mp (List.nodup_append.mp hnd).2.1).2.2 c hc c hm rfl

omit [DecidableEq α] in
theorem remove (h : Chains next stop (as ++ l :: bs))
    (he : ∀ c ∈ (as ++ bs).flatten, next' c = next c) : Chains next' stop (as ++ bs) where
  chain k hk := by
    refine (h.chain k ?_).congr fun c hc => he c (List.mem_flatten.mpr ⟨k, hk, hc⟩)
    simp only [List.mem_append, List.mem_cons] at hk ⊢
    tauto
  nodup := by
    have hnd := h.nodup
    simp only [List.flatten_append, List.flatten_cons] at hnd ⊢
    refine hnd.sublist ?_
    exact (List.Sublist.refl _).append (List.sublist_append_right _ _)

omit [DecidableEq α] in
theorem insert {l' : List α} (h : Chains next stop (as ++ bs))
    (he : ∀ c ∈ (as ++ bs).flatten, next' c = next c) (hl : Chain next' stop l') (hnd : l'.Nodup)
    (hd : ∀ c ∈ l', c ∉ (as ++ bs).flatten) : Chains next' stop (as ++ l' :: bs) where
  chain k hk := by
    simp only [List.mem_append, List.mem_cons] at hk
    by_cases e : k = l'
    · exact e ▸ hl
    · have hk : k ∈ as ++ bs := List.mem_append.mpr (by tauto)
      exact (h.chain k hk).congr fun c hc => he c (List.mem_flatten.mpr ⟨k, hk, hc⟩)
  nodup := by
    have hrest := h.nodup
    simp only [List.flatten_append, List.flatten_cons, List.mem_append, not_or,
      List.nodup_append] at hrest hd ⊢
    refine ⟨hrest.1, ⟨hnd, hrest.2.1, fun a ha b hb e => (hd a ha).2 (e ▸ hb)⟩, ?_⟩
    intro a ha b hb e
    rcases hb with hb | hb
    · exact (hd b hb).1 (e ▸ ha)
    · exact hrest.2.2 a ha b hb e

omit [DecidableEq α] in
theorem replace {l' : List α} (h : Chains next stop (as ++ l :: bs))
    (he : ∀ c ∈ (as ++ bs).flatten, next' c = next c) (hl : Chain next' stop l') (hnd : l'.Nodup)
    (hd : ∀ c ∈ l', c ∉ (as ++ bs).flatten) : Chains next' stop (as ++ l' :: bs) :=
  (h.remove fun _ _ => rfl).insert he hl hnd hd

end Chains

end Table
