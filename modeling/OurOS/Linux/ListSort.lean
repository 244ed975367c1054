import OurOS.Lib.Swaps
import OurOS.Linux.List

namespace OurOS

open Links

section

variable {κ ε σ : Type} [DecidableEq κ] [DecidableEq ε]

def listSwap (l : Links (κ ⊕ ε)) (a b : κ ⊕ ε) : Links (κ ⊕ ε) :=
  let tempNext := l.next b
  let l := listDel l a
  let l := listDel l b
  -- the links that `a` still holds after its removal say where it stood
  let l := listAdd l b (l.prev a)
  listAddTail l a tempNext

def sortPass (cmp : κ ⊕ ε → κ ⊕ ε → σ → ℤ × σ) (last : κ ⊕ ε) :
    ℕ → κ ⊕ ε → Links (κ ⊕ ε) → σ → Option (Links (κ ⊕ ε) × σ)
  | 0, _, _, _ => none
  | fuel + 1, start, l, s =>
    if l.next start = last then some (l, s)
    else
      let (order, s) := cmp start (l.next start) s
      if order > 0 then
        let l := listSwap l start (l.next start)
        let start := l.prev start
        sortPass cmp last fuel (l.next start) l s
      else sortPass cmp last fuel (l.next start) l s

def sortPasses (cmp : κ ⊕ ε → κ ⊕ ε → σ → ℤ × σ) (fuel : ℕ) (head : κ ⊕ ε) :
    ℕ → κ ⊕ ε → Links (κ ⊕ ε) → σ → Option (Links (κ ⊕ ε) × σ)
  | 0, _, _, _ => none
  | passes + 1, last, l, s =>
    if last = l.next head then some (l, s)
    else do
      let (l, s) ← sortPass cmp last fuel (l.next head) l s
      sortPasses cmp fuel head passes (l.prev last) l s

def listSort (cmp : κ ⊕ ε → κ ⊕ ε → σ → ℤ × σ) (fuel : ℕ) (head : κ ⊕ ε) (l : Links (κ ⊕ ε))
    (s : σ) : Option (Links (κ ⊕ ε) × σ) :=
  sortPasses cmp fuel head fuel head l s

end

section

variable {κ ε : Type} [DecidableEq κ] [DecidableEq ε] {l : Links (κ ⊕ ε)} {head : κ ⊕ ε}

theorem listSwap_head {p a b : κ ⊕ ε} {rest : List (κ ⊕ ε)} (hr : Ring l p (a :: b :: rest)) :
    Ring (listSwap l a b) p (b :: a :: rest) := by
  have hd := hr.1
  simp only [List.nodup_cons, List.mem_cons, not_or] at hd
  obtain ⟨⟨hpa, hpb, hprest⟩, ⟨hab, harest⟩, hbrest, -⟩ := hd
  have hfirst : l.prev a = p := hr.2.1.2
  -- both nodes leave the ring; `a` still points back to `p`
  have h1 : Ring (listDel l a) p ([] ++ b :: rest) := ring_unlink hr
  have h2 : Ring (listDel (listDel l a) b) p ([] ++ rest) := ring_unlink h1
  have hback : (listDel (listDel l a) b).prev a = p := by
    have hn : a ≠ (listDel l a).next b := by
      intro e
      have hm := ring_next_mem h1 (x := b) (by simp)
      rw [← e] at hm
      simp [Ne.symm hpa, hab, harest] at hm
    have hnext : a ≠ l.next a := by
      rw [hr.2.2.1.1]
      exact hab
    simp only [listDel, __listDel, unlink] at hn ⊢
    rw [Function.update_of_ne hn, Function.update_of_ne hnext, hfirst]
  have h3 : Ring (listAdd (listDel (listDel l a) b) b p) p (b :: rest) :=
    ring_link_first h2 (by simp [Ne.symm hpb, hbrest])
  -- seen from `b`, the node `a` comes back as the first of the ring
  have h4 : Ring (listAdd (listDel (listDel l a) b) b p) b (rest ++ [p]) := ring_rotate [] h3
  have hends : (listAdd (listDel (listDel l a) b) b p).next b = l.next b ∧
      (listAdd (listDel (listDel l a) b) b p).prev (l.next b) = b := by
    have hb := hr.2.2.2
    cases rest with
    | nil =>
      rw [hb.1]
      exact h4.2.1
    | cons n ns =>
      rw [hb.1.1]
      exact h4.2.1
  have h5 := ring_link_first h4 (x := a) (by simp [hab, harest, Ne.symm hpa])
  rw [hends.1] at h5
  have h6 := ring_rotate (a :: rest) h5
  rw [listSwap, hback, listAddTail, __listAdd, hends.2]
  exact h6

theorem listSwap_ring {front rest : List (κ ⊕ ε)} {a b : κ ⊕ ε}
    (hr : Ring l head (front ++ a :: b :: rest)) :
    Ring (listSwap l a b) head (front ++ b :: a :: rest) := by
  rcases List.eq_nil_or_concat front with rfl | ⟨front, p, rfl⟩
  · exact listSwap_head hr
  · simp only [List.concat_eq_append, List.append_assoc, List.singleton_append] at hr ⊢
    exact ring_rotate (b :: a :: rest) (listSwap_head (ring_rotate front hr))

omit [DecidableEq κ] [DecidableEq ε] in
theorem next_of_split {front rest : List (κ ⊕ ε)} {x : κ ⊕ ε}
    (hr : Ring l head (front ++ x :: rest)) : some (l.next x) = (rest ++ [head]).head? := by
  have hp := ((path_append front x rest).mp hr.2).2
  cases rest with
  | nil => simp [hp.1]
  | cons y rest => simp [hp.1.1]

omit [DecidableEq κ] [DecidableEq ε] in
theorem prev_of_split {front rest : List (κ ⊕ ε)} {x y : κ ⊕ ε}
    (hr : Ring l head (front ++ x :: rest)) (hy : (rest ++ [head]).head? = some y) :
    l.prev y = x := by
  have hp := ((path_append front x rest).mp hr.2).2
  cases rest with
  | nil =>
    obtain rfl : head = y := by simpa using hy
    exact hp.2
  | cons z rest =>
    obtain rfl : z = y := by simpa using hy
    exact hp.1.2

omit [DecidableEq κ] [DecidableEq ε] in
theorem ne_last (front : List (κ ⊕ ε)) {rest : List (κ ⊕ ε)} {x y : κ ⊕ ε}
    (hd : (head :: (front ++ x :: rest)).Nodup) {later : List (κ ⊕ ε)} (hs : later.Sublist rest)
    (hy : (later ++ [head]).head? = some y) : x ≠ y := by
  rintro rfl
  have hm := List.mem_of_mem_head? hy
  have hnd := (List.nodup_cons.mp hd).2
  rcases List.mem_append.mp hm with hm | hm
  · have hx := (List.nodup_append.mp hnd).2.1
    exact (List.nodup_cons.mp hx).1 (hs.subset hm)
  · rw [List.mem_singleton.mp hm] at hd
    simp at hd

omit [DecidableEq κ] [DecidableEq ε] in
theorem next_head_of_ring {xs : List (κ ⊕ ε)} (hr : Ring l head xs) :
    some (l.next head) = (xs ++ [head]).head? := by
  cases xs with
  | nil => simp [hr.2.1]
  | cons y rest => simp [hr.2.1.1]

end

section

variable {κ ε σ : Type} [DecidableEq κ] [DecidableEq ε]
variable {cmp : κ ⊕ ε → κ ⊕ ε → σ → ℤ × σ} {l : Links (κ ⊕ ε)} {head last : κ ⊕ ε}

def SwapsFor (cmp : κ ⊕ ε → κ ⊕ ε → σ → ℤ × σ) (a b : κ ⊕ ε) : Prop := ∃ s, 0 < (cmp a b s).1

structure ComparesBy (cmp : κ ⊕ ε → κ ⊕ ε → σ → ℤ × σ) (le : κ ⊕ ε → κ ⊕ ε → Prop)
    (xs : List (κ ⊕ ε)) : Prop where
  positive_iff : ∀ a ∈ xs, ∀ b ∈ xs, ∀ s, 0 < (cmp a b s).1 ↔ ¬ le a b
  total : ∀ a ∈ xs, ∀ b ∈ xs, le a b ∨ le b a
  trans : ∀ a ∈ xs, ∀ b ∈ xs, ∀ c ∈ xs, le a b → le b c → le a c

omit [DecidableEq κ] [DecidableEq ε] in
theorem ComparesBy.of_subset {le : κ ⊕ ε → κ ⊕ ε → Prop} {xs ys : List (κ ⊕ ε)}
    (h : ComparesBy cmp le xs) (hs : ys ⊆ xs) : ComparesBy cmp le ys where
  positive_iff a ha b hb := h.positive_iff a (hs ha) b (hs hb)
  total a ha b hb := h.total a (hs ha) b (hs hb)
  trans a ha b hb c hc := h.trans a (hs ha) b (hs hb) c (hs hc)

variable (cmp) in
theorem sortPass_run {ahead done : List (κ ⊕ ε)} (hlast : (done ++ [head]).head? = some last) :
    ∀ (front : List (κ ⊕ ε)) {cur : κ ⊕ ε} {l : Links (κ ⊕ ε)} {fuel : ℕ},
    Ring l head (front ++ cur :: (ahead ++ done)) → ahead.length < fuel → ∀ s : σ,
    ∃ front' cur' l' s', sortPass cmp last fuel cur l s = some (l', s') ∧
      Ring l' head (front' ++ cur' :: done) ∧
      SwapsTo (SwapsFor cmp) (front ++ cur :: ahead) (front' ++ [cur']) ∧
      ∀ le, ComparesBy cmp le (front ++ cur :: ahead) →
        (∀ x ∈ front, le x cur) → ∀ x ∈ front', le x cur' := by
  induction ahead with
  | nil =>
    intro front cur l fuel hr hfuel s
    obtain ⟨fuel, rfl⟩ : ∃ n, fuel = n + 1 := ⟨fuel - 1, by omega⟩
    have hnext : l.next cur = last := Option.some.inj ((next_of_split hr).trans hlast)
    exact ⟨front, cur, l, s, by simp [sortPass, hnext], hr, .refl, fun _ _ hle => hle⟩
  | cons b ahead ih =>
    intro front cur l fuel hr hfuel s
    obtain ⟨fuel, rfl⟩ : ∃ n, fuel = n + 1 := ⟨fuel - 1, by simp at hfuel; omega⟩
    have hnext : l.next cur = b := by simpa using next_of_split hr
    have hb : b ≠ last := by
      have hd : (head :: ((front ++ [cur]) ++ b :: (ahead ++ done))).Nodup := by simpa using hr.1
      exact ne_last _ hd (List.sublist_append_right ..) hlast
    cases hc : cmp cur b s with
    | mk order s₁ =>
    by_cases hpos : order > 0
    · have hswap := listSwap_ring hr
      have hprev : (listSwap l cur b).prev cur = b := prev_of_split hswap (by simp)
      have hcur : (listSwap l cur b).next b = cur := by simpa using next_of_split hswap
      have hr' : Ring (listSwap l cur b) head ((front ++ [b]) ++ cur :: (ahead ++ done)) := by
        simpa using hswap
      obtain ⟨front', cur', l', s', hrun, hring, hto, hmax⟩ :=
        ih _ hr' (by simpa using hfuel) s₁
      have hone : SwapsTo (SwapsFor cmp) (front ++ cur :: b :: ahead)
          ((front ++ [b]) ++ cur :: ahead) := by
        rw [List.append_assoc, List.singleton_append]
        exact .single (.swap front ahead ⟨s, by rwa [hc]⟩)
      refine ⟨front', cur', l', s', ?_, hring, hone.trans hto, fun le hle hdom => ?_⟩
      · rw [sortPass, if_neg (hnext ▸ hb), hnext, hc]
        simp only [if_pos hpos, hprev, hcur, hrun]
      · refine hmax le (hle.of_subset hone.perm.subset) fun x hx => ?_
        rcases List.mem_append.mp hx with hx | hx
        · exact hdom x hx
        · rw [List.mem_singleton.mp hx]
          have hgt := (hle.positive_iff cur (by simp) b (by simp) s).mp (by rwa [hc])
          exact (hle.total cur (by simp) b (by simp)).resolve_left hgt
    · have hr' : Ring l head ((front ++ [cur]) ++ b :: (ahead ++ done)) := by simpa using hr
      obtain ⟨front', cur', l', s', hrun, hring, hto, hmax⟩ :=
        ih _ hr' (by simpa using hfuel) s₁
      rw [List.append_assoc, List.singleton_append] at hto hmax
      refine ⟨front', cur', l', s', ?_, hring, hto, fun le hle hdom => ?_⟩
      · rw [sortPass, if_neg (hnext ▸ hb), hnext, hc]
        simp only [if_neg hpos, hrun]
      · have hcb : le cur b := by
          by_contra hgt
          exact hpos (by simpa [hc] using (hle.positive_iff cur (by simp) b (by simp) s).mpr hgt)
        refine hmax le hle fun x hx => ?_
        rcases List.mem_append.mp hx with hx | hx
        · exact hle.trans x (by simp [hx]) cur (by simp) b (by simp) (hdom x hx) hcb
        · rwa [List.mem_singleton.mp hx]

variable (cmp) in
theorem sortPasses_run {n passes : ℕ} (todo done : List (κ ⊕ ε)) (hr : Ring l head (todo ++ done))
    (hlast : (done ++ [head]).head? = some last) (hn : todo.length ≤ n)
    (hpasses : todo.length < passes) (s : σ) :
    ∃ ys l' s', sortPasses cmp (n + 1) head passes last l s = some (l', s') ∧
      Ring l' head ys ∧ SwapsTo (SwapsFor cmp) (todo ++ done) ys ∧
      ∀ le, ComparesBy cmp le (todo ++ done) → done.Pairwise le →
        (∀ x ∈ todo, ∀ y ∈ done, le x y) → ys.Pairwise le := by
  induction passes generalizing todo done last l s with
  | zero => exact absurd hpasses (Nat.not_lt_zero _)
  | succ passes ih =>
    cases todo with
    | nil =>
      have hnext : last = l.next head := Option.some.inj (hlast.symm.trans (next_head_of_ring hr).symm)
      exact ⟨done, l, s, by rw [sortPasses, if_pos hnext], hr, .refl, fun _ _ hsorted _ => hsorted⟩
    | cons x todo =>
      have hnext : l.next head = x := by simpa using next_head_of_ring hr
      have hx : last ≠ l.next head := by
        rw [hnext]
        exact (ne_last [] hr.1 (List.sublist_append_right ..) hlast).symm
      obtain ⟨front, top, l₁, s₁, hrun, hring, hto, hmax⟩ :=
        sortPass_run cmp hlast [] hr (Nat.lt_succ_of_le (Nat.le_of_succ_le hn)) s
      have hperm : (front ++ [top]).Perm (x :: todo) := hto.perm
      have hlen : front.length = todo.length := by simpa using hperm.length_eq
      have hmem : ∀ y, y ∈ front ∨ y = top ↔ y ∈ x :: todo := fun y => by
        simpa using hperm.mem_iff (a := y)
      have hto' : SwapsTo (SwapsFor cmp) (x :: todo ++ done) (front ++ top :: done) := by
        simpa using hto.append_right done
      obtain ⟨ys, l', s', hrest, hring', hto'', hsorted⟩ := ih front (top :: done) hring
        rfl (by rw [hlen]; exact Nat.le_of_succ_le hn)
        (by simpa [hlen] using hpasses) s₁
      refine ⟨ys, l', s', ?_, hring', hto'.trans hto'', fun le hle hdone hdom => ?_⟩
      · rw [sortPasses, if_neg hx, hnext, hrun]
        simp only [Option.bind_eq_bind, Option.bind_some, prev_of_split hring hlast, hrest]
      · have hdom' : ∀ y, y ∈ front ∨ y = top → ∀ z ∈ done, le y z := fun y hy =>
          hdom y ((hmem y).mp hy)
        have htop := hmax le (hle.of_subset (List.subset_append_left ..)) (by simp)
        refine hsorted le (hle.of_subset hto'.perm.subset) ?_ ?_
        · exact List.pairwise_cons.mpr ⟨hdom' top (.inr rfl), hdone⟩
        · intro y hy z hz
          rcases List.mem_cons.mp hz with rfl | hz
          · exact htop y hy
          · exact hdom' y (.inl hy) z hz

variable (cmp) in
theorem listSort_sorts {xs : List (κ ⊕ ε)} (hr : Ring l head xs) {fuel : ℕ}
    (hfuel : xs.length < fuel) (s : σ) :
    ∃ ys l' s', listSort cmp fuel head l s = some (l', s') ∧ Ring l' head ys ∧ ys.Perm xs ∧
      ∀ le, ComparesBy cmp le xs → ys.Pairwise le ∧
        ∀ a ∈ xs, ∀ b ∈ xs, le a b → [a, b].Sublist xs → [a, b].Sublist ys := by
  obtain ⟨n, rfl⟩ : ∃ n, fuel = n + 1 := ⟨fuel - 1, by omega⟩
  obtain ⟨ys, l', s', hrun, hring, hto, hsorted⟩ := sortPasses_run cmp xs []
    (by simpa using hr) rfl (Nat.le_of_lt_succ hfuel) hfuel s
  rw [List.append_nil] at hto hsorted
  refine ⟨ys, l', s', hrun, hring, hto.perm, fun le hle => ⟨hsorted le hle .nil (by simp), ?_⟩⟩
  intro a ha b hb hab hsub
  refine hto.pair_sublist ?_ hsub
  rintro ⟨s, hs⟩
  exact (hle.positive_iff a ha b hb s).mp hs hab

end

section Small

def nodeKey : Unit ⊕ Fin 3 → ℤ
  | .inr 1 => 1
  | _ => 2

def keyCmp (a b : Unit ⊕ Fin 3) (s : Unit) : ℤ × Unit := (nodeKey a - nodeKey b, s)

def threeNodes : Links (Unit ⊕ Fin 3) where
  prev
    | .inr 0 => .inl ()
    | .inr 1 => .inr 0
    | .inr 2 => .inr 1
    | .inl _ => .inr 2
  next
    | .inl _ => .inr 0
    | .inr 0 => .inr 1
    | .inr 1 => .inr 2
    | .inr 2 => .inl ()

theorem listSort_sorts_small : ∃ ys l' s',
    listSort keyCmp 4 (.inl ()) threeNodes () = some (l', s') ∧ Ring l' (.inl ()) ys ∧
      ys.Perm [.inr 0, .inr 1, .inr 2] ∧ ys.Pairwise (fun a b => (keyCmp a b ()).1 ≤ 0) ∧
      [.inr 0, .inr 2].Sublist ys := by
  have hring : Ring threeNodes (.inl ()) [.inr 0, .inr 1, .inr 2] := by decide
  obtain ⟨ys, l', s', hrun, hring', hperm, hsorted⟩ :=
    listSort_sorts keyCmp hring (Nat.lt_succ_self 3) ()
  obtain ⟨hpairs, hstable⟩ := hsorted (fun a b => (keyCmp a b ()).1 ≤ 0)
    ⟨fun _ _ _ _ _ => (not_le ..).symm, fun a _ b _ => by simp [keyCmp]; omega,
      fun a _ b _ c _ => by simp only [keyCmp]; omega⟩
  exact ⟨ys, l', s', hrun, hring', hperm, hpairs,
    hstable _ (by simp) _ (by simp) (by decide) (by decide)⟩

end Small

end OurOS
