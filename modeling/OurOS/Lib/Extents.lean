import Mathlib.Data.List.Range
import Mathlib.Data.List.Perm.Basic
import Mathlib.Data.List.Perm.Lattice
import Mathlib.Data.List.Nodup
import Mathlib.Order.Lattice
import Mathlib.Tactic.Common

namespace Extents

variable {α : Type} [LinearOrder α] {l m rest : List (α × α)} {a b c d x : α} {e f : α × α}

def Covers (e : α × α) (x : α) : Prop := e.1 ≤ x ∧ x < e.2

instance (e : α × α) (x : α) : Decidable (Covers e x) := inferInstanceAs (Decidable (_ ∧ _))

def coverage (l : List (α × α)) (x : α) : ℕ := l.countP (Covers · x)

def Apart (e f : α × α) : Prop := ∀ x, ¬(Covers e x ∧ Covers f x)

def Within (e : α × α) (l : List (α × α)) : Prop := ∃ f ∈ l, f.1 ≤ e.1 ∧ e.2 ≤ f.2

@[simp] theorem coverage_nil (x : α) : coverage [] x = 0 := rfl

@[simp] theorem coverage_cons (e : α × α) (l : List (α × α)) (x : α) :
    coverage (e :: l) x = coverage l x + if Covers e x then 1 else 0 := by
  simp [coverage, List.countP_cons]

@[simp] theorem coverage_append (l m : List (α × α)) (x : α) :
    coverage (l ++ m) x = coverage l x + coverage m x := List.countP_append

theorem coverage_perm (h : l.Perm m) : coverage l x = coverage m x := h.countP_eq _

theorem coverage_pos : 0 < coverage l x ↔ ∃ e ∈ l, Covers e x := by
  simp [coverage, List.countP_pos_iff]

theorem covers_join (hab : a ≤ b) (hbc : b ≤ c) :
    ((if Covers (a, b) x then 1 else 0) + if Covers (b, c) x then 1 else 0) =
      if Covers (a, c) x then 1 else 0 := by
  by_cases hb : x < b
  · have h1 : Covers (a, b) x ↔ Covers (a, c) x :=
      ⟨fun h => ⟨h.1, hb.trans_le hbc⟩, fun h => ⟨h.1, hb⟩⟩
    have h2 : ¬Covers (b, c) x := fun h => absurd hb (not_lt.mpr h.1)
    simp [h1, h2]
  · have h1 : ¬Covers (a, b) x := fun h => hb h.2
    have h2 : Covers (b, c) x ↔ Covers (a, c) x :=
      ⟨fun h => ⟨hab.trans h.1, h.2⟩, fun h => ⟨not_lt.mp hb, h.2⟩⟩
    simp [h1, h2]

theorem pairwise_of_coverage (h : ∀ x, coverage l x ≤ 1) : l.Pairwise Apart := by
  induction l with
  | nil => exact .nil
  | cons e l ih =>
    refine .cons (fun f hf x hx => ?_) (ih fun x => ?_)
    · have h1 : 0 < coverage l x := coverage_pos.mpr ⟨f, hf, hx.2⟩
      have h2 := h x
      rw [coverage_cons, if_pos hx.1] at h2
      omega
    · exact (Nat.le_add_right _ _).trans ((coverage_cons e l x).symm.trans_le (h x))

/-- The extents of `m` are those of `l` with some neighbours put together. -/
inductive Joins : List (α × α) → List (α × α) → Prop
  | perm {l m : List (α × α)} (h : l.Perm m) : Joins l m
  | join {l m rest : List (α × α)} {a b c : α} (hab : a ≤ b) (hbc : b ≤ c)
      (h : l.Perm ((a, b) :: (b, c) :: rest)) (hm : Joins ((a, c) :: rest) m) : Joins l m

theorem Joins.of_perm (h : Joins m rest) (hp : l.Perm m) : Joins l rest := by
  cases h with
  | perm h => exact .perm (hp.trans h)
  | join hab hbc h hm => exact .join hab hbc (hp.trans h) hm

theorem Joins.perm_right (h : Joins l m) (hp : m.Perm rest) : Joins l rest := by
  induction h with
  | perm h => exact .perm (h.trans hp)
  | join hab hbc h _ ih => exact .join hab hbc h (ih hp)

theorem Joins.coverage (h : Joins l m) (x : α) : coverage m x = coverage l x := by
  induction h with
  | perm h => exact (coverage_perm h).symm
  | join hab hbc h _ ih =>
    rw [ih, coverage_perm h, coverage_cons, coverage_cons, coverage_cons, ← covers_join hab hbc]
    omega

theorem Within.perm (h : Within e l) (hp : l.Perm m) : Within e m := by
  obtain ⟨f, hf, hle⟩ := h
  exact ⟨f, hp.mem_iff.mp hf, hle⟩

theorem Within.append_right (h : Within e m) (l : List (α × α)) : Within e (l ++ m) := by
  obtain ⟨f, hf, hle⟩ := h
  exact ⟨f, List.mem_append_right l hf, hle⟩

theorem Joins.within (h : Joins l m) (he : Within e l) : Within e m := by
  induction h with
  | perm h => exact he.perm h
  | join hab hbc h _ ih =>
    obtain ⟨f, hf, h1, h2⟩ := he.perm h
    rcases List.mem_cons.mp hf with rfl | hf
    · exact ih ⟨_, List.mem_cons_self, h1, h2.trans hbc⟩
    rcases List.mem_cons.mp hf with rfl | hf
    · exact ih ⟨_, List.mem_cons_self, hab.trans h1, h2⟩
    · exact ih ⟨f, List.mem_cons_of_mem _ hf, h1, h2⟩

theorem Joins.bounded {lo hi : α} (h : Joins l m)
    (hl : ∀ e ∈ l, lo ≤ e.1 ∧ e.1 < e.2 ∧ e.2 ≤ hi) : ∀ e ∈ m, lo ≤ e.1 ∧ e.1 < e.2 ∧ e.2 ≤ hi := by
  induction h with
  | perm h => exact fun e he => hl e (h.mem_iff.mpr he)
  | @join l m rest a b c hab hbc h _ ih =>
    have h1 := hl _ (h.mem_iff.mpr List.mem_cons_self)
    have h2 := hl _ (h.mem_iff.mpr (List.mem_cons_of_mem _ List.mem_cons_self))
    refine ih fun e he => ?_
    rcases List.mem_cons.mp he with rfl | he
    · exact ⟨h1.1, h1.2.1.trans h2.2.1, h2.2.2⟩
    · exact hl e (h.mem_iff.mpr (List.mem_cons_of_mem _ (List.mem_cons_of_mem _ he)))

def part (a b : α) : List (α × α) := if a < b then [(a, b)] else []

/-- One extent of `l` is replaced by what is left of it without the extent `e`. -/
def Cut (l m : List (α × α)) (e : α × α) : Prop :=
  ∃ a d rest, a ≤ e.1 ∧ e.1 < e.2 ∧ e.2 ≤ d ∧ l.Perm ((a, d) :: rest) ∧
    m.Perm (part a e.1 ++ part e.2 d ++ rest)

theorem coverage_part (a b x : α) : coverage (part a b) x = if Covers (a, b) x then 1 else 0 := by
  unfold part
  split_ifs with h1 h2 h2
  · simp [h2]
  · simp [h2]
  · exact absurd (h2.1.trans_lt h2.2) h1
  · rfl

theorem Cut.coverage (h : Cut l m e) (x : α) :
    coverage l x = Extents.coverage m x + if Covers e x then 1 else 0 := by
  obtain ⟨b, c⟩ := e
  obtain ⟨a, d, rest, h1, h2, h3, hl, hm⟩ := h
  rw [coverage_perm hl, coverage_perm hm, coverage_cons, coverage_append, coverage_append,
    coverage_part, coverage_part, ← covers_join h1 (h2.le.trans h3), ← covers_join h2.le h3]
  dsimp only
  omega

theorem mem_part : f ∈ part a b ↔ a < b ∧ f = (a, b) := by
  unfold part
  split_ifs with h <;> simp [h]

theorem Cut.within (h : Cut l m e) (hf : Within f l) (hlt : f.1 < f.2) (ha : Apart e f) :
    Within f m := by
  obtain ⟨a, d, rest, h1, h2, h3, hl, hm⟩ := h
  refine Within.perm ?_ hm.symm
  obtain ⟨g, hg, h4, h5⟩ := hf.perm hl
  rcases List.mem_cons.mp hg with rfl | hg
  · have hside : f.2 ≤ e.1 ∨ e.2 ≤ f.1 := by
      by_contra hno
      push Not at hno
      exact ha (max e.1 f.1) ⟨⟨le_max_left _ _, max_lt h2 hno.2⟩, le_max_right _ _, max_lt hno.1 hlt⟩
    rcases hside with hs | hs
    · exact ⟨(a, e.1), by simp [mem_part, h4.trans_lt (hlt.trans_le hs)], h4, hs⟩
    · exact ⟨(e.2, d), by simp [mem_part, hs.trans_lt (hlt.trans_le h5)], hs, h5⟩
  · exact Within.append_right ⟨g, hg, h4, h5⟩ _

theorem Cut.bounded {lo hi : α} (h : Cut l m e)
    (hl : ∀ e ∈ l, lo ≤ e.1 ∧ e.1 < e.2 ∧ e.2 ≤ hi) : ∀ e ∈ m, lo ≤ e.1 ∧ e.1 < e.2 ∧ e.2 ≤ hi := by
  obtain ⟨a, d, rest, h1, h2, h3, hp, hm⟩ := h
  obtain ⟨h4, h5, h6⟩ := hl (a, d) (hp.mem_iff.mpr List.mem_cons_self)
  intro f hf
  simp only [hm.mem_iff, List.mem_append, mem_part] at hf
  rcases hf with (⟨hlt, rfl⟩ | ⟨hlt, rfl⟩) | hf
  · exact ⟨h4, hlt, (h2.le.trans h3).trans h6⟩
  · exact ⟨h4.trans (h1.trans h2.le), hlt, h6⟩
  · exact hl f (hp.mem_iff.mpr (List.mem_cons_of_mem _ hf))

end Extents

section Indexed

variable {β : Type} {n i : ℕ} (f : ℕ → β)

theorem range_map_perm_erase (hi : i < n) :
    ((List.range n).map f).Perm (f i :: ((List.range n).erase i).map f) :=
  (List.perm_cons_erase (List.mem_range.mpr hi)).map f

theorem range_erase_map_update (v : β) :
    ((List.range n).erase i).map (Function.update f i v) = ((List.range n).erase i).map f :=
  List.map_congr_left fun _ hj =>
    Function.update_of_ne ((List.nodup_range.mem_erase_iff.mp hj).1) v f

theorem range_map_update (hi : i < n) (v : β) :
    ((List.range n).map (Function.update f i v)).Perm (v :: ((List.range n).erase i).map f) := by
  have h := range_map_perm_erase (Function.update f i v) hi
  rwa [range_erase_map_update, Function.update_self] at h

theorem range_map_shift (hi : i ≤ n) :
    (f i :: (List.range n).map fun j => if i ≤ j then f (j + 1) else f j).Perm
      ((List.range (n + 1)).map f) := by
  induction n with
  | zero => obtain rfl := Nat.le_zero.mp hi; simp
  | succ n ih =>
    rw [List.range_succ (n := n + 1), List.map_append]
    rcases Nat.lt_or_eq_of_le hi with hlt | rfl
    · conv_lhs => rw [List.range_succ, List.map_append, ← List.cons_append]
      refine (ih (Nat.lt_succ_iff.mp hlt)).append ?_
      simp [Nat.lt_succ_iff.mp hlt]
    · have hmap : ((List.range (n + 1)).map fun j => if n + 1 ≤ j then f (j + 1) else f j) =
          (List.range (n + 1)).map f :=
        List.map_congr_left fun j hj => if_neg (by have := List.mem_range.mp hj; omega)
      rw [hmap]
      exact (List.perm_append_singleton _ _).symm

end Indexed
