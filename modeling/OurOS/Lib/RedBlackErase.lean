import OurOS.Lib.RedBlack

namespace RedBlack

open ColorTree

variable {α : Type}

/-- The rotations at a black sibling; `true` where the subtree stays one black node short. -/
def settleErase (d : Side) (c : Color) (t : ColorTree α) (p : α) : ColorTree α → ColorTree α × Bool
  | nil => (join d c t p nil, false)
  | node e l s r =>
    let near := (node e l s r).child d
    let far := (node e l s r).child d.flip
    if far.color = .black then
      match near with
      | node .red nl k nr =>
        (join d c (join d .black t p ((node .red nl k nr).child d)) k
          (join d .black (((node .red nl k nr).child d.flip).paint .black) s far), false)
      | _ => (join d .black t p (node .red l s r), decide (c = .black))
    else (join d c (join d .black t p near) s (far.paint .black), false)

/-- The black node that is missing in `t` is made up for on the way up. -/
def fixErase : ColorTree α → List (Frame α) → ColorTree α
  | t, [] => t
  | t, f :: path => match f.sib with
    | node .red l s r =>
      plug (settleErase f.side .red t f.key (((node .red l s r).child f.side).paint .black)).1
        (⟨f.side, f.color, s, (node .red l s r).child f.side.flip⟩ :: path)
    | u =>
      let r := settleErase f.side f.color t f.key u
      if r.2 then fixErase r.1 path else plug r.1 path

/-- The leftmost node of a tree: its color, its key, its right subtree, and the way up from it. -/
def leftmost : ColorTree α → List (Frame α) → Option (Color × α × ColorTree α × List (Frame α))
  | nil, _ => none
  | node c nil a r, path => some (c, a, r, path)
  | node c (node c' l' a' r') a r, path => leftmost (node c' l' a' r') (⟨.left, c, a, r⟩ :: path)

/-- What is left at the place of a node of the color `c` that had at most one child. -/
def closeGap (c : Color) (child : ColorTree α) (gap : Color) (path : List (Frame α)) : ColorTree α :=
  match child with
  | nil => if gap = .black then fixErase nil path else plug nil path
  | u => plug (u.paint c) path

def eraseAt (c : Color) (l r : ColorTree α) (path : List (Frame α)) : ColorTree α :=
  match l, r with
  | nil, r => closeGap c r c path
  | node _ l' a' r', nil => plug (node c l' a' r') path
  | l, r => match leftmost r [] with
    | none => plug nil path
    | some (cs, s, u, way) => closeGap .black u cs (way ++ ⟨.right, c, s, l⟩ :: path)

section Settle

variable {d : Side} {c : Color} {t u : ColorTree α} {p : α} {n : ℕ}

theorem settleErase_far (e : Color) (near far : ColorTree α) (s : α) (hf : far.color = .red) :
    settleErase d c t p (join d e near s far) =
      (join d c (join d .black t p near) s (far.paint .black), false) := by
  have hb : ¬ far.color = .black := by simp [hf]
  cases d <;> simp [settleErase, join, child, Side.flip, hb]

theorem settleErase_near (e : Color) (nn nf far : ColorTree α) (k s : α) (hf : far.color = .black) :
    settleErase d c t p (join d e (join d .red nn k nf) s far) =
      (join d c (join d .black t p nn) k (join d .black (nf.paint .black) s far), false) := by
  cases d <;> simp [settleErase, join, child, Side.flip, hf]

theorem settleErase_flip (e : Color) (near far : ColorTree α) (s : α) (hn : near.color = .black)
    (hf : far.color = .black) : settleErase d c t p (join d e near s far) =
      (join d .black t p (join d .red near s far), decide (c = .black)) := by
  cases near with
  | nil => cases d <;> simp [settleErase, join, child, Side.flip, hf]
  | node cn nl k nr =>
    obtain rfl : cn = .black := hn
    cases d <;> simp [settleErase, join, child, Side.flip, hf]

theorem settleErase_cases (d : Side) (hu : u ≠ nil) :
    (∃ e near s far, u = join d e near s far ∧ far.color = .red ∧ settleErase d c t p u =
      (join d c (join d .black t p near) s (far.paint .black), false)) ∨
    (∃ e nn k nf s far, u = join d e (join d .red nn k nf) s far ∧ far.color = .black ∧
      settleErase d c t p u =
        (join d c (join d .black t p nn) k (join d .black (nf.paint .black) s far), false)) ∨
    ∃ e near s far, u = join d e near s far ∧ near.color = .black ∧ far.color = .black ∧
      settleErase d c t p u =
        (join d .black t p (join d .red near s far), decide (c = .black)) := by
  obtain ⟨e, near, s, far, rfl⟩ := exists_join d hu
  cases hf : far.color with
  | red => exact .inl ⟨e, near, s, far, rfl, hf, settleErase_far e near far s hf⟩
  | black =>
    cases hn : near.color with
    | black => exact .inr (.inr ⟨e, near, s, far, rfl, hn, hf, settleErase_flip e near far s hn hf⟩)
    | red =>
      have hne : near ≠ nil := by
        rintro rfl
        cases hn
      obtain ⟨c', nn, k, nf, rfl⟩ := exists_join d hne
      obtain rfl : c' = .red := (color_join ..).symm.trans hn
      exact .inr (.inl ⟨e, nn, k, nf, s, far, rfl, hf, settleErase_near e nn nf far k s hf⟩)

theorem inorder_settleErase (hu : u ≠ nil) :
    (settleErase d c t p u).1.inorder = (join d c t p u).inorder := by
  rcases settleErase_cases (c := c) (t := t) (p := p) d hu with
    ⟨e, near, s, far, rfl, -, h⟩ | ⟨e, nn, k, nf, s, far, rfl, -, h⟩ | ⟨e, near, s, far, rfl, -, -, h⟩
  · rw [h]
    cases d <;> simp [inorder_join]
  · rw [h]
    cases d <;> simp [inorder_join]
  · rw [h]
    cases d <;> simp [inorder_join]

theorem ColorTree.Balanced.of_black_sibling {e : Color} {near far : ColorTree α} {s : α}
    (hu : Balanced (join d e near s far) (n + 1)) (cu : (join d e near s far).color = .black) :
    Balanced near n ∧ Balanced far n := by
  obtain rfl : e = .black := (color_join ..).symm.trans cu
  obtain ⟨m, hm, hnear, hfar⟩ := hu.of_join_black
  obtain rfl := Nat.succ.inj hm
  exact ⟨hnear, hfar⟩

theorem settleErase_balanced (ht : Balanced t n) (hu : Balanced u (n + 1))
    (cu : u.color = .black) :
    ((settleErase d c t p u).2 = false ∧
      Balanced (settleErase d c t p u).1 (if c = .black then n + 2 else n + 1) ∧
      ((settleErase d c t p u).1.color = .red → c = .red)) ∨
    (settleErase d c t p u).2 = true ∧ c = .black ∧ Balanced (settleErase d c t p u).1 (n + 1) ∧
      (settleErase d c t p u).1.color = .black := by
  have hjoin : ∀ {v w : ColorTree α} {a : α}, Balanced v (n + 1) → Balanced w (n + 1) →
      v.color = .black → w.color = .black →
      Balanced (join d c v a w) (if c = .black then n + 2 else n + 1) := by
    intro v w a hv hw cv cw
    cases c with
    | red => exact hv.join_red hw cv cw
    | black => exact hv.join_black hw
  have hpaint : ∀ {v : ColorTree α}, Balanced v n → v.color = .red →
      Balanced (v.paint .black) (n + 1) ∧ (v.paint .black).color = .black := by
    intro v hv cv
    cases hv with
    | nil => cases cv
    | black => cases cv
    | red hl hr => exact ⟨hl.black hr, rfl⟩
  rcases settleErase_cases (c := c) (t := t) (p := p) d hu.ne_nil with
    ⟨e, near, s, far, rfl, hf, h⟩ | ⟨e, nn, k, nf, s, far, rfl, hf, h⟩ |
      ⟨e, near, s, far, rfl, hn, hf, h⟩
  · obtain ⟨h1, h2⟩ := hu.of_black_sibling cu
    obtain ⟨h3, h4⟩ := hpaint h2 hf
    rw [h]
    exact .inl ⟨rfl, hjoin (ht.join_black h1) h3 (color_join ..) h4, fun hr => by simpa using hr⟩
  · obtain ⟨h1, h2⟩ := hu.of_black_sibling cu
    obtain ⟨h3, h4, c3, c4⟩ := h1.of_join_red
    rw [h, paint_of_color c4]
    exact .inl ⟨rfl, hjoin (ht.join_black h3) (h4.join_black h2) (color_join ..) (color_join ..),
      fun hr => by simpa using hr⟩
  · obtain ⟨h1, h2⟩ := hu.of_black_sibling cu
    have h3 := ht.join_black (d := d) (a := p) (h1.join_red (d := d) (a := s) h2 hn hf)
    rw [h]
    cases c with
    | red => exact .inl ⟨rfl, h3, fun hr => rfl⟩
    | black => exact .inr ⟨rfl, rfl, h3, color_join ..⟩

end Settle

section Erase

variable {t : ColorTree α} {path : List (Frame α)} {n : ℕ}

theorem fixErase_red (t : ColorTree α) (d : Side) (c : Color) (p : α) (near far : ColorTree α) (s : α)
    (path : List (Frame α)) : fixErase t (⟨d, c, p, join d .red near s far⟩ :: path) =
      plug (settleErase d .red t p (near.paint .black)).1 (⟨d, c, s, far⟩ :: path) := by
  cases d <;> rfl

theorem fixErase_black (t : ColorTree α) {f : Frame α} (hf : f.sib.color = .black)
    (path : List (Frame α)) : fixErase t (f :: path) =
      if (settleErase f.side f.color t f.key f.sib).2 then
        fixErase (settleErase f.side f.color t f.key f.sib).1 path
      else plug (settleErase f.side f.color t f.key f.sib).1 path := by
  obtain ⟨d, c, p, u⟩ := f
  cases u with
  | nil => rfl
  | node e l s r =>
    obtain rfl : e = .black := hf
    rfl

theorem fixErase_spec (ht : Balanced t n) (ct : t.color = .black) (hp : PathBalanced path (n + 1)) :
    IsRedBlack (fixErase t path) ∧ (fixErase t path).inorder = (plug t path).inorder := by
  induction path generalizing t n with
  | nil => exact ⟨⟨ct, n, ht⟩, rfl⟩
  | cons f path ih =>
    obtain ⟨d, c, p, u⟩ := f
    have hu : Balanced u (n + 1) := hp.sib
    cases cu : u.color with
    | red =>
      obtain rfl : c = .black := by
        cases hp with
        | red _ cu' => cases cu.symm.trans cu'
        | black => rfl
      cases hp with
      | black _ hp =>
        obtain ⟨e, near, s, far, rfl⟩ := exists_join d hu.ne_nil
        obtain rfl : e = .red := (color_join ..).symm.trans cu
        obtain ⟨h1, h2, c1, c2⟩ := hu.of_join_red
        rw [fixErase_red, paint_of_color c1]
        have hio := inorder_settleErase (d := d) (c := .red) (t := t) (p := p) h1.ne_nil
        constructor
        · rcases settleErase_balanced (d := d) (c := .red) (p := p) ht h1 c1 with
            ⟨-, h3, -⟩ | ⟨-, h3, -⟩
          · exact plug_isRedBlack (.black h2 hp) h3 fun hr => by cases hr
          · cases h3
        · simp only [plug, inorder_plug, inorder_join, hio]
          cases d <;> simp
    | black =>
      rw [fixErase_black t cu]
      dsimp only
      have hio := inorder_settleErase (d := d) (c := c) (t := t) (p := p) hu.ne_nil
      rcases settleErase_balanced (d := d) (c := c) (p := p) ht hu cu with
        ⟨h1, h2, h3⟩ | ⟨h1, rfl, h2, h3⟩
      · rw [h1, if_neg (by decide)]
        refine ⟨?_, by rw [plug, inorder_plug, inorder_plug, hio]⟩
        cases hp with
        | red _ _ hb hp => exact plug_isRedBlack hp h2 fun hr => by cases hr.symm.trans hb
        | black _ hp =>
          refine plug_isRedBlack hp h2 fun _ => ?_
          cases hc : (settleErase d .black t p u).1.color with
          | red => cases h3 hc
          | black => rfl
      · rw [h1, if_pos rfl]
        cases hp with
        | black _ hp =>
          obtain ⟨h4, h5⟩ := ih h2 h3 hp
          exact ⟨h4, by rw [h5, plug, inorder_plug, inorder_plug, hio]⟩

theorem closeGap_spec {c gap : Color} {s : α} {u : ColorTree α} (h : Balanced (node gap nil s u) n)
    (hc : c = .black ∨ c = gap) (hp : PathBalanced path n)
    (hb : parentColor path = .red → gap = .black) : IsRedBlack (closeGap c u gap path) ∧
      (closeGap c u gap path).inorder = before path ++ u.inorder ++ after path := by
  cases h with
  | red hl hr _ cu =>
    cases hl with
    | nil =>
      cases hr with
      | red => cases cu
      | nil =>
        refine ⟨plug_isRedBlack hp .nil fun _ => rfl, ?_⟩
        simp [closeGap, inorder_plug, inorder]
  | black hl hr =>
    obtain rfl : c = .black := hc.elim id id
    cases hl with
    | nil =>
      cases hr with
      | nil =>
        obtain ⟨h1, h2⟩ := fixErase_spec .nil rfl hp
        refine ⟨h1, ?_⟩
        rw [inorder_plug] at h2
        exact h2
      | red hl hr =>
        refine ⟨plug_isRedBlack hp (hl.black hr) fun _ => rfl, ?_⟩
        simp [closeGap, inorder_plug, paint, inorder]

theorem leftmost_spec (ht : t ≠ nil) (path : List (Frame α)) : ∃ c a r way,
    leftmost t path = some (c, a, r, way ++ path) ∧ plug (node c nil a r) way = t ∧
      before way = ([] : List α) ∧ ∀ f ∈ way, f.side = Side.left := by
  induction t generalizing path with
  | nil => exact absurd rfl ht
  | node c l a r ihl ihr =>
    cases l with
    | nil => exact ⟨c, a, r, [], rfl, rfl, rfl, by simp⟩
    | node c' l' a' r' =>
      obtain ⟨e, s, u, way, h1, h2, h3, h4⟩ := ihl (by simp) (⟨.left, c, a, r⟩ :: path)
      refine ⟨e, s, u, way ++ [⟨.left, c, a, r⟩], by simpa [leftmost] using h1, ?_, ?_, ?_⟩
      · rw [plug_append, h2]
        rfl
      · clear h1 h2
        induction way with
        | nil => rfl
        | cons f way ih =>
          have hf := h4 f List.mem_cons_self
          simp only [before, hf, List.cons_append] at h3 ⊢
          exact ih h3 fun g hg => h4 g (List.mem_cons_of_mem _ hg)
      · intro f hf
        rcases List.mem_append.mp hf with hf | hf
        · exact h4 f hf
        · rw [List.mem_singleton.mp hf]

theorem eraseAt_cases {c : Color} {l r : ColorTree α} {x : α} (h : IsRedBlack (plug (node c l x r) path)) :
    (l = nil ∧ ∃ k, Balanced (node c nil x r) k ∧ PathBalanced path k ∧
      (parentColor path = .red → c = .black) ∧ eraseAt c l r path = closeGap c r c path) ∨
    (l ≠ nil ∧ r = nil ∧ IsRedBlack (plug (l.paint c) path) ∧
      eraseAt c l r path = plug (l.paint c) path) ∨
    l ≠ nil ∧ ∃ e s u way k, plug (node e nil s u) way = r ∧ before way = ([] : List α) ∧
      (∀ f ∈ way, f.side = Side.left) ∧ Balanced (node e nil s u) k ∧
      PathBalanced (way ++ ⟨.right, c, s, l⟩ :: path) k ∧
      (parentColor (way ++ ⟨.right, c, s, l⟩ :: path) = .red → e = .black) ∧
      eraseAt c l r path = closeGap .black u e (way ++ ⟨.right, c, s, l⟩ :: path) := by
  obtain ⟨n, hp, hn, hc⟩ := pathBalanced_of_plug h
  cases l with
  | nil => exact .inl ⟨rfl, n, hn, hp, hc, rfl⟩
  | node cl l' a' r' =>
    cases r with
    | nil =>
      have hl : Balanced (node c l' a' r') n := by
        cases hn with
        | red hl hr cl _ =>
          cases hr with
          | nil =>
            cases hl with
            | red => cases cl
        | black hl hr =>
          cases hr with
          | nil =>
            cases hl with
            | red hl hr => exact hl.black hr
      exact .inr (.inl ⟨by simp, rfl, plug_isRedBlack hp hl hc, rfl⟩)
    | node cr l'' a'' r'' =>
      obtain ⟨cs, s, u, way, h1, h2, h3, h4⟩ := leftmost_spec
        (t := node cr l'' a'' r'') (by simp) []
      have hwhole : plug (node cs nil s u) (way ++ ⟨.right, c, x, node cl l' a' r'⟩ :: path) =
          plug (node c (node cl l' a' r') x (node cr l'' a'' r'')) path := by
        rw [plug_append, h2]
        rfl
      obtain ⟨m, hp', hm, hc'⟩ := pathBalanced_of_plug (hwhole ▸ h)
      have hp'' : PathBalanced (way ++ ⟨.right, c, s, node cl l' a' r'⟩ :: path) m :=
        pathBalanced_rekey hp'
      have hc'' : parentColor (way ++ ⟨.right, c, s, node cl l' a' r'⟩ :: path) = .red →
          cs = .black := by
        cases way with
        | nil => exact hc'
        | cons f way => exact hc'
      refine .inr (.inr ⟨by simp, cs, s, u, way, m, h2, h3, h4, hm, hp'', hc'', ?_⟩)
      rw [List.append_nil] at h1
      simp only [eraseAt, h1]

theorem eraseAt_spec {c : Color} {l r : ColorTree α} {x : α}
    (h : IsRedBlack (plug (node c l x r) path)) : IsRedBlack (eraseAt c l r path) ∧
      (eraseAt c l r path).inorder = before path ++ (l.inorder ++ r.inorder) ++ after path := by
  rcases eraseAt_cases h with ⟨rfl, k, hk, hp, hc, he⟩ | ⟨-, rfl, h1, he⟩ |
    ⟨-, e, s, u, way, k, rfl, hb, -, hk, hp, hc, he⟩
  · rw [he]
    exact closeGap_spec hk (.inr rfl) hp hc
  · rw [he]
    exact ⟨h1, by simp [inorder_plug, inorder]⟩
  · obtain ⟨h4, h5⟩ := closeGap_spec hk (.inl rfl) hp hc
    rw [he]
    refine ⟨h4, h5.trans ?_⟩
    rw [before_append, after_append, inorder_plug, hb]
    simp [before, after, inorder]

end Erase

end RedBlack
