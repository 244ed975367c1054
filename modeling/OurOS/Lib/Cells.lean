import Mathlib.Data.Multiset.MapFold
import Mathlib.Algebra.Order.Group.Multiset
import Mathlib.Data.Multiset.UnionInter
import Mathlib.Tactic.Abel

namespace Cells

variable {κ V : Type} [DecidableEq κ]

def modify (h : κ → V) (x : κ) (f : V → V) : κ → V := Function.update h x (f (h x))

def cell (x : κ) (v : V) : Multiset (κ × V) := {(x, v)}

/-- The memory `h` has the cells of `m`, at different addresses that are all `ok`. -/
structure Holds (ok : κ → Prop) (h : κ → V) (m : Multiset (κ × V)) : Prop where
  nodup : (m.map Prod.fst).Nodup
  stored : ∀ e ∈ m, h e.1 = e.2
  ok : ∀ e ∈ m, ok e.1

variable {ok : κ → Prop} {h : κ → V} {m n : Multiset (κ × V)} {x y : κ} {v w : V}

theorem modify_self (f : V → V) : modify h x f x = f (h x) := Function.update_self ..

theorem modify_of_ne (f : V → V) (hne : y ≠ x) : modify h x f y = h y :=
  Function.update_of_ne hne ..

namespace Holds

omit [DecidableEq κ] in
theorem of_le (hm : Holds ok h m) (hle : n ≤ m) : Holds ok h n where
  nodup := Multiset.nodup_of_le (Multiset.map_le_map hle) hm.nodup
  stored e he := hm.stored e (Multiset.mem_of_le hle he)
  ok e he := hm.ok e (Multiset.mem_of_le hle he)

omit [DecidableEq κ] in
theorem of_eq (hm : Holds ok h m) (e : m = n) : Holds ok h n := e ▸ hm

omit [DecidableEq κ] in
theorem left (hm : Holds ok h (m + n)) : Holds ok h m := hm.of_le (Multiset.le_add_right m n)

omit [DecidableEq κ] in
theorem right (hm : Holds ok h (m + n)) : Holds ok h n := hm.of_le (Multiset.le_add_left n m)

omit [DecidableEq κ] in
theorem read (hm : Holds ok h (cell x v + m)) : h x = v :=
  hm.stored (x, v) (by simp [cell])

omit [DecidableEq κ] in
theorem valid (hm : Holds ok h (cell x v + m)) : ok x := hm.ok (x, v) (by simp [cell])

omit [DecidableEq κ] in
theorem ne_of_mem (hm : Holds ok h (cell x v + m)) {e : κ × V} (he : e ∈ m) : e.1 ≠ x := by
  have hd := hm.nodup
  simp only [cell, Multiset.singleton_add, Multiset.map_cons, Multiset.nodup_cons] at hd
  rintro rfl
  exact hd.1 (Multiset.mem_map_of_mem Prod.fst he)

omit [DecidableEq κ] in
theorem ne (hm : Holds ok h (cell x v + (cell y w + m))) : y ≠ x :=
  hm.ne_of_mem (e := (y, w)) (by simp [cell])

omit [DecidableEq κ] in
theorem add (hm : Holds ok h m) (hx : ok x) (hn : x ∉ m.map Prod.fst) :
    Holds ok h (cell x (h x) + m) where
  nodup := by
    simp only [cell, Multiset.singleton_add, Multiset.map_cons, Multiset.nodup_cons]
    exact ⟨hn, hm.nodup⟩
  stored e he := by
    rcases Multiset.mem_add.mp he with he | he
    · rw [Multiset.mem_singleton.mp he]
    · exact hm.stored e he
  ok e he := by
    rcases Multiset.mem_add.mp he with he | he
    · rw [Multiset.mem_singleton.mp he]
      exact hx
    · exact hm.ok e he

theorem write (hm : Holds ok h (cell x v + m)) (f : V → V) :
    Holds ok (modify h x f) (cell x (f v) + m) where
  nodup := by simpa [cell] using hm.nodup
  stored e he := by
    rcases Multiset.mem_add.mp he with he | he
    · rw [Multiset.mem_singleton.mp he, modify_self, hm.read]
    · rw [modify_of_ne f (hm.ne_of_mem he)]
      exact hm.stored e (Multiset.mem_add.mpr (.inr he))
  ok e he := by
    rcases Multiset.mem_add.mp he with he | he
    · rw [Multiset.mem_singleton.mp he]
      exact hm.valid
    · exact hm.ok e (Multiset.mem_add.mpr (.inr he))

end Holds

end Cells
