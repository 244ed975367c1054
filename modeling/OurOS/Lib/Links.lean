import Mathlib.Logic.Function.Basic
import Mathlib.Data.List.Basic
import Mathlib.Data.List.Nodup
import Mathlib.Data.Set.Insert
import Mathlib.Data.Sum.Basic
import Mathlib.Tactic.Common

@[ext] structure Links (ν : Type) where
  prev : ν → ν
  next : ν → ν

namespace Links

variable {ν : Type} [DecidableEq ν]

def reset (l : Links ν) (x : ν) : Links ν where
  prev := Function.update l.prev x x
  next := Function.update l.next x x

def link (l : Links ν) (x p n : ν) : Links ν where
  prev := Function.update (Function.update l.prev n x) x p
  next := Function.update (Function.update l.next x n) p x

def unlink (l : Links ν) (p n : ν) : Links ν where
  prev := Function.update l.prev n p
  next := Function.update l.next p n

def Path (l : Links ν) : ν → List ν → ν → Prop
  | a, [], b => l.next a = b ∧ l.prev b = a
  | a, x :: xs, b => (l.next a = x ∧ l.prev x = a) ∧ Path l x xs b

def Ring (l : Links ν) (h : ν) (xs : List ν) : Prop :=
  (h :: xs).Nodup ∧ Path l h xs h

instance decidablePath (l : Links ν) : ∀ (a : ν) (xs : List ν) (b : ν), Decidable (Path l a xs b)
  | a, [], b => inferInstanceAs (Decidable (l.next a = b ∧ l.prev b = a))
  | a, x :: xs, b =>
    have := decidablePath l x xs b
    inferInstanceAs (Decidable ((l.next a = x ∧ l.prev x = a) ∧ Path l x xs b))

instance (l : Links ν) (h : ν) (xs : List ν) : Decidable (Ring l h xs) :=
  inferInstanceAs (Decidable (_ ∧ _))

omit [DecidableEq ν] in
theorem path_append {l : Links ν} {a b : ν} (xs : List ν) (y : ν) (ys : List ν) :
    Path l a (xs ++ y :: ys) b ↔ Path l a xs y ∧ Path l y ys b := by
  induction xs generalizing a with
  | nil => simp [Path]
  | cons x xs ih => simp [Path, ih, and_assoc]

omit [DecidableEq ν] in
theorem path_frame {l m : Links ν} {a b : ν} {xs : List ν} (h : Path l a xs b)
    (hn : ∀ x ∈ a :: xs, m.next x = l.next x)
    (hp : ∀ x, x ∈ xs ∨ x = b → m.prev x = l.prev x) : Path m a xs b := by
  induction xs generalizing a with
  | nil =>
    obtain ⟨h1, h2⟩ := h
    exact ⟨by rw [hn a (by simp), h1], by rw [hp b (by simp), h2]⟩
  | cons x xs ih =>
    obtain ⟨⟨h1, h2⟩, h3⟩ := h
    refine ⟨⟨by rw [hn a (by simp), h1], by rw [hp x (by simp), h2]⟩, ih h3 ?_ ?_⟩
    · exact fun y hy => hn y (List.mem_cons_of_mem _ hy)
    · exact fun y hy => hp y (hy.imp (List.mem_cons_of_mem _) id)

omit [DecidableEq ν] in
theorem path_prev_mem {l : Links ν} {a b : ν} {xs : List ν} (h : Path l a xs b) :
    l.prev b ∈ a :: xs := by
  induction xs generalizing a with
  | nil => simp [h.2]
  | cons x xs ih => exact List.mem_cons_of_mem _ (ih h.2)

omit [DecidableEq ν] in
theorem path_next_mem {l : Links ν} {a b : ν} {xs : List ν} (h : Path l a xs b) :
    l.next a = b ∨ l.next a ∈ xs := by
  cases xs with
  | nil => exact .inl h.1
  | cons x xs => exact .inr (by simp [h.1.1])

theorem path_retarget {l : Links ν} {a x n : ν} {xs : List ν} (h : Path l a xs x)
    (hd : (a :: xs).Nodup) (hn : n ∉ xs) : Path (l.unlink (l.prev x) n) a xs n := by
  induction xs generalizing a with
  | nil => simp [Path, unlink, h.2]
  | cons y ys ih =>
    obtain ⟨⟨h1, h2⟩, h3⟩ := h
    rw [List.nodup_cons] at hd
    simp only [List.mem_cons, not_or] at hn
    have hm := path_prev_mem h3
    have ha : a ≠ l.prev x := fun e => hd.1 (e ▸ hm)
    refine ⟨⟨?_, ?_⟩, ih h3 hd.2 hn.2⟩
    · simp [unlink, Function.update_of_ne ha, h1]
    · simp [unlink, Function.update_of_ne (Ne.symm hn.1), h2]

omit [DecidableEq ν] in
theorem ring_frame {l m : Links ν} {h : ν} {xs : List ν} (hr : Ring l h xs)
    (hn : ∀ x ∈ h :: xs, m.next x = l.next x) (hp : ∀ x ∈ h :: xs, m.prev x = l.prev x) :
    Ring m h xs :=
  ⟨hr.1, path_frame hr.2 hn fun x hx => hp x (by simpa [or_comm] using hx)⟩

theorem ring_reset (l : Links ν) (h : ν) : Ring (l.reset h) h [] := by
  simp [Ring, Path, reset]

omit [DecidableEq ν] in
theorem ring_next_eq_self {l : Links ν} {h : ν} {xs : List ν} (hr : Ring l h xs) :
    l.next h = h ↔ xs = [] := by
  obtain ⟨hd, hp⟩ := hr
  cases xs with
  | nil => simpa using hp.1
  | cons x xs =>
    have hx : h ≠ x := fun e => (List.nodup_cons.mp hd).1 (by simp [e])
    simpa [hp.1.1] using hx.symm

theorem ring_link_first {l : Links ν} {h x : ν} {xs : List ν} (hr : Ring l h xs)
    (hx : x ∉ h :: xs) : Ring (l.link x h (l.next h)) h (x :: xs) := by
  obtain ⟨hd, hp⟩ := hr
  have hxh : x ≠ h := fun e => hx (by simp [e])
  have hxs : x ∉ xs := fun e => hx (List.mem_cons_of_mem _ e)
  obtain ⟨hh, hnd⟩ := List.nodup_cons.mp hd
  refine ⟨by simp [hxh.symm, hh, hxs, hnd], ?_⟩
  cases xs with
  | nil => simp [Path, link, hp.1, hxh, hxh.symm]
  | cons y ys =>
    obtain ⟨⟨h1, h2⟩, h3⟩ := hp
    obtain ⟨hy, hys⟩ := List.nodup_cons.mp hnd
    simp only [List.mem_cons, not_or] at hxs hh
    have hfirst : (l.link x h (l.next h)).next h = x ∧ (l.link x h (l.next h)).prev x = h := by
      simp [link]
    have hsecond : (l.link x h (l.next h)).next x = y ∧ (l.link x h (l.next h)).prev y = x := by
      simp [link, h1, hxh, Ne.symm hxs.1]
    refine ⟨hfirst, hsecond, path_frame h3 ?_ ?_⟩
    · intro z hz
      have hzx : z ≠ x := fun e => by
        rcases List.mem_cons.mp hz with rfl | hz
        · exact hxs.1 e.symm
        · exact hxs.2 (e ▸ hz)
      have hzh : z ≠ h := fun e => by
        rcases List.mem_cons.mp hz with rfl | hz
        · exact hh.1 e.symm
        · exact hh.2 (e ▸ hz)
      simp [link, hzx, hzh]
    · intro z hz
      have hzx : z ≠ x := by
        rintro rfl
        exact hz.elim hxs.2 hxh
      have hzy : z ≠ y := by
        rintro rfl
        exact hz.elim hy fun e => hh.1 e.symm
      simp [link, h1, hzx, hzy]

theorem ring_link_last {l : Links ν} {h x : ν} {xs : List ν} (hr : Ring l h xs)
    (hx : x ∉ h :: xs) : Ring (l.link x (l.prev h) h) h (xs ++ [x]) := by
  obtain ⟨hd, hp⟩ := hr
  have hxh : x ≠ h := fun e => hx (by simp [e])
  have hxs : x ∉ xs := fun e => hx (List.mem_cons_of_mem _ e)
  refine ⟨?_, (path_append xs x []).mpr ⟨?_, ?_⟩⟩
  · rw [← List.cons_append]
    exact hd.append (by simp) (by simpa using ⟨hxh, hxs⟩)
  · -- the path up to the old last node is retargeted from the head to the new node
    have hq := path_prev_mem hp
    refine path_frame (path_retarget hp hd hxs) ?_ ?_
    · intro z hz
      have hzx : z ≠ x := fun e => hx (e ▸ hz)
      by_cases hzp : z = l.prev h
      · simp [link, unlink, hzp]
      · simp [link, unlink, hzp, hzx]
    · intro z hz
      by_cases hzx : z = x
      · simp [link, unlink, hzx]
      · have hzh : z ≠ h := by
          rintro rfl
          exact hz.elim (List.nodup_cons.mp hd).1 hxh.symm
        simp [link, unlink, hzx, hzh]
  · have hne : x ≠ l.prev h := fun e => hx (e ▸ path_prev_mem hp)
    simp [Path, link, hxh.symm, hne]

theorem ring_unlink {l : Links ν} {h x : ν} {as bs : List ν} (hr : Ring l h (as ++ x :: bs)) :
    Ring (l.unlink (l.prev x) (l.next x)) h (as ++ bs) := by
  obtain ⟨hd, hp⟩ := hr
  obtain ⟨ha, hb⟩ := (path_append as x bs).mp hp
  rw [List.nodup_cons] at hd
  obtain ⟨hh, hnd⟩ := hd
  rw [List.nodup_append, List.nodup_cons] at hnd
  obtain ⟨hda, ⟨hxb, hdb⟩, hdis⟩ := hnd
  simp only [List.mem_append, List.mem_cons, not_or] at hh
  obtain ⟨hha, hhx, hhb⟩ := hh
  have hab : ∀ y ∈ as, y ∉ bs := fun y hy hy' => hdis y hy y (by simp [hy']) rfl
  have hnodup : (h :: (as ++ bs)).Nodup := by
    rw [List.nodup_cons, List.nodup_append]
    exact ⟨by simp [hha, hhb], hda, hdb, fun y hy z hz e => hab y hy (e ▸ hz)⟩
  have hpm := path_prev_mem ha
  refine ⟨hnodup, ?_⟩
  cases bs with
  | nil =>
    rw [hb.1, List.append_nil]
    exact path_retarget ha (List.nodup_cons.mpr ⟨hha, hda⟩) hha
  | cons y ys =>
    obtain ⟨⟨h1, h2⟩, h3⟩ := hb
    rw [h1]
    obtain ⟨hy, hys⟩ := List.nodup_cons.mp hdb
    have hya : y ∉ as := fun e => hab y e (by simp)
    refine (path_append as y ys).mpr
      ⟨path_retarget ha (List.nodup_cons.mpr ⟨hha, hda⟩) hya, path_frame h3 ?_ ?_⟩
    · intro z hz
      have hzp : z ≠ l.prev x := by
        rintro rfl
        rcases List.mem_cons.mp hpm with e | e
        · exact hhb (e ▸ hz)
        · exact hab _ e hz
      simp [unlink, hzp]
    · intro z hz
      have hzy : z ≠ y := by
        rintro rfl
        exact hz.elim hy fun e => hhb (by simp [e])
      simp [unlink, hzy]

omit [DecidableEq ν] in
theorem ring_rotate {l : Links ν} {h x : ν} (as : List ν) {bs : List ν}
    (hr : Ring l h (as ++ x :: bs)) :
    Ring l x (bs ++ h :: as) := by
  obtain ⟨hd, hp⟩ := hr
  obtain ⟨ha, hb⟩ := (path_append as x bs).mp hp
  have hperm : (h :: (as ++ x :: bs)).Perm (x :: (bs ++ h :: as)) := by
    have hswap := @List.perm_append_comm _ (h :: as) (x :: bs)
    simpa using hswap
  exact ⟨hperm.nodup_iff.mp hd, (path_append bs h as).mpr ⟨hb, ha⟩⟩

omit [DecidableEq ν] in
theorem ring_next_mem {l : Links ν} {h x : ν} {xs : List ν} (hr : Ring l h xs)
    (hx : x ∈ h :: xs) : l.next x ∈ h :: xs := by
  rcases List.mem_cons.mp hx with rfl | hx
  · rcases path_next_mem hr.2 with e | e
    · simp [e]
    · exact List.mem_cons_of_mem _ e
  · obtain ⟨as, bs, rfl⟩ := List.append_of_mem hx
    rcases path_next_mem ((path_append as x bs).mp hr.2).2 with e | e
    · simp [e]
    · simp [e]

omit [DecidableEq ν] in
theorem ring_prev_mem {l : Links ν} {h x : ν} {xs : List ν} (hr : Ring l h xs)
    (hx : x ∈ h :: xs) : l.prev x ∈ h :: xs := by
  rcases List.mem_cons.mp hx with rfl | hx
  · exact path_prev_mem hr.2
  · obtain ⟨as, bs, rfl⟩ := List.append_of_mem hx
    have hm := path_prev_mem ((path_append as x bs).mp hr.2).1
    rcases List.mem_cons.mp hm with e | e
    · simp [e]
    · simp [e]

omit [DecidableEq ν] in
theorem path_unique {l : Links ν} {a b : ν} {xs ys : List ν} (hx : Path l a xs b)
    (hy : Path l a ys b) (hbx : b ∉ xs) (hby : b ∉ ys) : xs = ys := by
  induction xs generalizing a ys with
  | nil =>
    cases ys with
    | nil => rfl
    | cons y ys => exact absurd (hx.1.symm.trans hy.1.1) fun e => hby (by simp [e])
  | cons x xs ih =>
    cases ys with
    | nil => exact absurd (hy.1.symm.trans hx.1.1) fun e => hbx (by simp [e])
    | cons y ys =>
      obtain rfl : x = y := hx.1.1.symm.trans hy.1.1
      rw [ih hx.2 hy.2 (fun e => hbx (List.mem_cons_of_mem _ e))
        (fun e => hby (List.mem_cons_of_mem _ e))]

omit [DecidableEq ν] in
theorem ring_unique {l : Links ν} {h : ν} {xs ys : List ν} (hx : Ring l h xs)
    (hy : Ring l h ys) : xs = ys :=
  path_unique hx.2 hy.2 (List.nodup_cons.mp hx.1).1 (List.nodup_cons.mp hy.1).1

section Family

variable {κ ε : Type} [DecidableEq κ] [DecidableEq ε]

structure Rings (H : Set κ) (l : Links (κ ⊕ ε)) (lists : κ → List ε) : Prop where
  ring : ∀ h ∈ H, Ring l (.inl h) ((lists h).map .inr)
  off : ∀ h ∉ H, lists h = []
  disjoint : ∀ h h' x, x ∈ lists h → x ∈ lists h' → h = h'

def OnRing (l : Links (κ ⊕ ε)) (h : κ) (x : ε) : Prop :=
  ∃ xs : List ε, Ring l (.inl h) (xs.map .inr) ∧ x ∈ xs

namespace Rings

variable {H : Set κ} {l : Links (κ ⊕ ε)} {lists : κ → List ε}

omit [DecidableEq κ] [DecidableEq ε] in
theorem none (l : Links (κ ⊕ ε)) : Rings ∅ l (fun _ => []) where
  ring := by simp
  off := by simp
  disjoint := by simp

omit [DecidableEq κ] [DecidableEq ε] in
theorem mem_heads (hr : Rings H l lists) {h : κ} {x : ε} (hx : x ∈ lists h) : h ∈ H := by
  by_contra hn
  simp [hr.off h hn] at hx

omit [DecidableEq κ] [DecidableEq ε] in
theorem nodup (hr : Rings H l lists) (h : κ) : (lists h).Nodup := by
  by_cases hh : h ∈ H
  · exact List.Nodup.of_map _ (List.nodup_cons.mp (hr.ring h hh).1).2
  · simp [hr.off h hh]

omit [DecidableEq κ] [DecidableEq ε] in
theorem onRing_iff (hr : Rings H l lists) {h : κ} (hh : h ∈ H) {x : ε} :
    OnRing l h x ↔ x ∈ lists h := by
  constructor
  · rintro ⟨xs, hxs, hx⟩
    have he := ring_unique hxs (hr.ring h hh)
    rwa [← List.map_injective_iff.mpr Sum.inr_injective he]
  · exact fun hx => ⟨_, hr.ring h hh, hx⟩

omit [DecidableEq κ] [DecidableEq ε] in
theorem next_eq_self (hr : Rings H l lists) {h : κ} (hh : h ∈ H) :
    l.next (.inl h) = .inl h ↔ lists h = [] := by
  simpa using ring_next_eq_self (hr.ring h hh)

omit [DecidableEq κ] [DecidableEq ε] in
theorem first_eq (hr : Rings H l lists) {h : κ} (hh : h ∈ H) :
    (l.next (.inl h)).getRight? = (lists h).head? := by
  have hp := (hr.ring h hh).2
  cases hl : lists h with
  | nil => simp [hl, Path] at hp; simp [hp.1]
  | cons x xs => simp [hl, Path] at hp; simp [hp.1.1]

omit [DecidableEq κ] [DecidableEq ε] in
theorem last_eq (hr : Rings H l lists) {h : κ} (hh : h ∈ H) :
    (l.prev (.inl h)).getRight? = (lists h).getLast? := by
  have hp := (hr.ring h hh).2
  rcases List.eq_nil_or_concat (lists h) with hl | ⟨xs, x, hl⟩
  · simp [hl, Path] at hp
    simp [hl, hp.2]
  · rw [hl, List.concat_eq_append, List.map_append, List.map_singleton] at hp
    have hx := ((path_append _ _ _).mp hp).2
    simp [hl, hx.2]

omit [DecidableEq κ] [DecidableEq ε] in
theorem node_ne (hr : Rings H l lists) {h h' : κ} (hne : h ≠ h') {x y : κ ⊕ ε}
    (hx : x ∈ (.inl h :: (lists h).map .inr : List (κ ⊕ ε)))
    (hy : y ∈ (.inl h' :: (lists h').map .inr : List (κ ⊕ ε))) : x ≠ y := by
  rintro rfl
  simp only [List.mem_cons, List.mem_map] at hx hy
  rcases hx with rfl | ⟨a, ha, rfl⟩
  · simp [hne] at hy
  · obtain ⟨b, hb, he⟩ := hy.resolve_left (by simp)
    obtain rfl := Sum.inr_injective he
    exact hne (hr.disjoint h h' b ha hb)

omit [DecidableEq κ] [DecidableEq ε] in
theorem outside_ne {x : ε} (hx : ∀ k, x ∉ lists k) {h : κ} {y : κ ⊕ ε}
    (hy : y ∈ (.inl h :: (lists h).map .inr : List (κ ⊕ ε))) : y ≠ .inr x := by
  rintro rfl
  simp [hx h] at hy

omit [DecidableEq ε] in
theorem disjoint_insert (hr : Rings H l lists) {h : κ} {x : ε} (hx : ∀ k, x ∉ lists k)
    {xs : List ε} (hxs : ∀ y, y ∈ xs ↔ y = x ∨ y ∈ lists h) (k k' : κ) (y : ε)
    (hy : y ∈ Function.update lists h xs k) (hy' : y ∈ Function.update lists h xs k') :
    k = k' := by
  have hcase : ∀ j, y ∈ Function.update lists h xs j → (y = x ∧ j = h) ∨ y ∈ lists j := by
    intro j hj
    by_cases e : j = h
    · subst e
      rw [Function.update_self, hxs] at hj
      exact hj.imp (fun h1 => ⟨h1, rfl⟩) id
    · rw [Function.update_of_ne e] at hj
      exact .inr hj
  rcases hcase k hy with ⟨e, rfl⟩ | h1 <;> rcases hcase k' hy' with ⟨e', rfl⟩ | h2
  · rfl
  · exact absurd (e ▸ h2) (hx k')
  · exact absurd (e' ▸ h1) (hx k)
  · exact hr.disjoint k k' y h1 h2

theorem link_first (hr : Rings H l lists) {h : κ} (hh : h ∈ H) {x : ε} (hx : ∀ k, x ∉ lists k) :
    Rings H (l.link (.inr x) (.inl h) (l.next (.inl h)))
      (Function.update lists h (x :: lists h)) where
  ring k hk := by
    by_cases e : k = h
    · subst e
      simpa using ring_link_first (hr.ring k hh) (x := .inr x) (by simpa using hx k)
    · rw [Function.update_of_ne e]
      have hn := ring_next_mem (hr.ring h hh) (List.mem_cons_self ..)
      refine ring_frame (hr.ring k hk) ?_ ?_
      · intro y hy
        simp [link, hr.node_ne e hy (List.mem_cons_self ..), outside_ne hx hy]
      · intro y hy
        simp [link, hr.node_ne e hy hn, outside_ne hx hy]
  off k hk := by
    have e : k ≠ h := fun e => hk (e ▸ hh)
    rw [Function.update_of_ne e, hr.off k hk]
  disjoint := hr.disjoint_insert hx (by simp)

theorem link_last (hr : Rings H l lists) {h : κ} (hh : h ∈ H) {x : ε} (hx : ∀ k, x ∉ lists k) :
    Rings H (l.link (.inr x) (l.prev (.inl h)) (.inl h))
      (Function.update lists h (lists h ++ [x])) where
  ring k hk := by
    by_cases e : k = h
    · subst e
      simpa using ring_link_last (hr.ring k hh) (x := .inr x) (by simpa using hx k)
    · rw [Function.update_of_ne e]
      have hn := ring_prev_mem (hr.ring h hh) (List.mem_cons_self ..)
      refine ring_frame (hr.ring k hk) ?_ ?_
      · intro y hy
        simp [link, hr.node_ne e hy hn, outside_ne hx hy]
      · intro y hy
        simp [link, hr.node_ne e hy (List.mem_cons_self ..), outside_ne hx hy]
  off k hk := by
    have e : k ≠ h := fun e => hk (e ▸ hh)
    rw [Function.update_of_ne e, hr.off k hk]
  disjoint := hr.disjoint_insert hx (by simp [or_comm])

theorem mem_of_mem_erase {h : κ} {x y : ε} {k : κ}
    (hy : y ∈ Function.update lists h ((lists h).erase x) k) : y ∈ lists k := by
  by_cases e : k = h
  · subst e
    rw [Function.update_self] at hy
    exact List.mem_of_mem_erase hy
  · rwa [Function.update_of_ne e] at hy

theorem not_mem_erase (hr : Rings H l lists) {h : κ} {x : ε} (hx : x ∈ lists h) (k : κ) :
    x ∉ Function.update lists h ((lists h).erase x) k := by
  intro hk
  obtain rfl := hr.disjoint k h x (mem_of_mem_erase hk) hx
  rw [Function.update_self] at hk
  exact (hr.nodup k).not_mem_erase hk

theorem unlink (hr : Rings H l lists) {h : κ} {x : ε} (hx : x ∈ lists h) :
    Rings H (l.unlink (l.prev (.inr x)) (l.next (.inr x)))
      (Function.update lists h ((lists h).erase x)) where
  ring k hk := by
    have hh := hr.mem_heads hx
    have hm : (.inr x : κ ⊕ ε) ∈ (.inl h :: (lists h).map .inr : List (κ ⊕ ε)) := by simp [hx]
    by_cases e : k = h
    · subst e
      have hring := hr.ring k hh
      obtain ⟨as, bs, hl⟩ := List.append_of_mem hx
      have hxa : x ∉ as := by
        have hnd := hr.nodup k
        rw [hl, List.nodup_append] at hnd
        exact fun e => hnd.2.2 x e x (by simp) rfl
      rw [hl, List.map_append, List.map_cons] at hring
      rw [Function.update_self, hl, List.erase_append_right _ hxa, List.erase_cons_head,
        List.map_append]
      exact ring_unlink hring
    · rw [Function.update_of_ne e]
      refine ring_frame (hr.ring k hk) ?_ ?_
      · intro y hy
        simp [Links.unlink, hr.node_ne e hy (ring_prev_mem (hr.ring h hh) hm)]
      · intro y hy
        simp [Links.unlink, hr.node_ne e hy (ring_next_mem (hr.ring h hh) hm)]
  off k hk := by
    have e : k ≠ h := fun e => hk (e ▸ hr.mem_heads hx)
    rw [Function.update_of_ne e, hr.off k hk]
  disjoint k k' y hy hy' := hr.disjoint k k' y (mem_of_mem_erase hy) (mem_of_mem_erase hy')

theorem mem_update_erase (hr : Rings H l lists) {h : κ} {x : ε} (hx : x ∈ lists h) (k : κ) (y : ε) :
    y ∈ Function.update lists h ((lists h).erase x) k ↔ y ≠ x ∧ y ∈ lists k := by
  constructor
  · intro hy
    exact ⟨fun e => hr.not_mem_erase hx k (e ▸ hy), mem_of_mem_erase hy⟩
  · rintro ⟨hne, hy⟩
    by_cases e : k = h
    · subst e
      rw [Function.update_self]
      exact (List.mem_erase_of_ne hne).mpr hy
    · rwa [Function.update_of_ne e]

omit [DecidableEq ε] in
theorem mem_update_append {h : κ} {x : ε} (k : κ) (y : ε) :
    y ∈ Function.update lists h (lists h ++ [x]) k ↔ y ∈ lists k ∨ y = x ∧ k = h := by
  by_cases e : k = h
  · subst e
    simp
  · simp [e]

theorem reset_entry (hr : Rings H l lists) {x : ε} (hx : ∀ k, x ∉ lists k) :
    Rings H (l.reset (.inr x)) lists where
  ring k hk := ring_frame (hr.ring k hk)
    (fun y hy => by simp [reset, outside_ne hx hy])
    (fun y hy => by simp [reset, outside_ne hx hy])
  off := hr.off
  disjoint := hr.disjoint

theorem reset_head (hr : Rings H l lists) {h : κ} (he : lists h = []) :
    Rings (insert h H) (l.reset (.inl h)) lists where
  ring k hk := by
    by_cases e : k = h
    · subst e
      rw [he]
      exact ring_reset l _
    · have hne : ∀ y ∈ (.inl k :: (lists k).map .inr : List (κ ⊕ ε)), y ≠ .inl h :=
        fun y hy => hr.node_ne e hy (List.mem_cons_self ..)
      exact ring_frame (hr.ring k (hk.resolve_left e))
        (fun y hy => by simp [reset, hne y hy]) (fun y hy => by simp [reset, hne y hy])
  off k hk := hr.off k fun h' => hk (.inr h')
  disjoint := hr.disjoint

omit [DecidableEq ε] in
theorem remove_head (hr : Rings H l lists) (h : κ) :
    Rings (H \ {h}) l (Function.update lists h []) where
  ring k hk := by
    rw [Function.update_of_ne hk.2]
    exact hr.ring k hk.1
  off k hk := by
    by_cases e : k = h
    · rw [e, Function.update_self]
    · rw [Function.update_of_ne e]
      exact hr.off k fun hH => hk ⟨hH, e⟩
  disjoint k k' x hx hx' := by
    have hmem : ∀ k, x ∈ Function.update lists h [] k → x ∈ lists k := by
      intro k hk
      by_cases e : k = h
      · simp [e] at hk
      · rwa [Function.update_of_ne e] at hk
    exact hr.disjoint k k' x (hmem k hx) (hmem k' hx')

end Rings

/-- The lists after `x` leaves the list of `h` and is appended to that of `h'`. -/
def relist (lists : κ → List ε) (h h' : κ) (x : ε) : κ → List ε :=
  let lists := Function.update lists h ((lists h).erase x)
  Function.update lists h' (lists h' ++ [x])

theorem relist_of_cons {lists : κ → List ε} {h h' : κ} {x : ε} {xs : List ε}
    (hx : lists h = x :: xs) (hne : h ≠ h') : relist lists h h' x h = xs := by
  rw [relist, Function.update_of_ne hne, Function.update_self, hx, List.erase_cons_head]

theorem relist_of_ne {lists : κ → List ε} {h h' k : κ} {x : ε} (hk : k ≠ h) (hk' : k ≠ h') :
    relist lists h h' x k = lists k := by
  rw [relist, Function.update_of_ne hk', Function.update_of_ne hk]

theorem relist_of_nil {lists : κ → List ε} {h h' k : κ} {x : ε} (hk : lists k = [])
    (hne : k ≠ h') : relist lists h h' x k = [] := by
  rw [relist, Function.update_of_ne hne]
  by_cases e : k = h
  · subst e
    rw [Function.update_self, hk, List.erase_nil]
  · rw [Function.update_of_ne e, hk]

namespace Rings

variable {H : Set κ} {l : Links (κ ⊕ ε)} {lists : κ → List ε} {h h' : κ} {x : ε}

theorem unlink_link_last (hr : Rings H l lists) (hx : x ∈ lists h) (hh : h' ∈ H) :
    Rings H (let m := l.unlink (l.prev (.inr x)) (l.next (.inr x))
      m.link (.inr x) (m.prev (.inl h')) (.inl h')) (relist lists h h' x) :=
  (hr.unlink hx).link_last hh (hr.not_mem_erase hx)

theorem mem_relist (hr : Rings H l lists) (hx : x ∈ lists h) (k : κ) (y : ε) :
    y ∈ relist lists h h' x k ↔ y ≠ x ∧ y ∈ lists k ∨ y = x ∧ k = h' := by
  rw [relist, mem_update_append, hr.mem_update_erase hx]

end Rings

end Family

end Links
