import OurOS.Fs.NameHash

namespace OurOS.Fs

/-- The order of the characters themselves where two names first differ up to case. -/
inductive Precedes : List ℕ → List ℕ → Prop where
  | short (d : ℕ) (b : List ℕ) : Precedes [] (d :: b)
  | here {c d : ℕ} (a b : List ℕ) (hne : toUpperCase c ≠ toUpperCase d) (hlt : c < d) :
      Precedes (c :: a) (d :: b)
  | next {c d : ℕ} {a b : List ℕ} (he : toUpperCase c = toUpperCase d) (h : Precedes a b) :
      Precedes (c :: a) (d :: b)

/-- Where the three names first differ up to case, the second has a character between the capital
and the small letter of the others. -/
inductive Between : List ℕ → List ℕ → List ℕ → Prop where
  | here {x y z : ℕ} (a b c : List ℕ) (he : toUpperCase x = toUpperCase z) (hxy : x < y)
      (hyz : y < z) : Between (x :: a) (y :: b) (z :: c)
  | next {x y z : ℕ} {a b c : List ℕ} (hxy : toUpperCase x = toUpperCase y)
      (hyz : toUpperCase y = toUpperCase z) (h : Between a b c) :
      Between (x :: a) (y :: b) (z :: c)

/-- One of the three names lies between the two cases of a letter of the others, and what follows
that letter puts the name with the small one first. -/
def Crossed (a b c : List ℕ) : Prop :=
  Between a b c ∧ Precedes c a ∨ Between c a b ∧ ¬ Precedes c b ∨ Between b c a ∧ ¬ Precedes b a

structure OrderedNames (a b c : List ℕ) : Prop where
  equal : compareFat32 a b = 0 ↔ SameLetters a b
  antisymm : 0 < compareFat32 a b ↔ compareFat32 b a < 0
  trans : compareFat32 a b ≤ 0 → compareFat32 b c ≤ 0 → compareFat32 a c ≤ 0

section Letters

variable {x y z : ℕ}

theorem not_three_cases (hxy : toUpperCase x = toUpperCase y) (hyz : toUpperCase y = toUpperCase z)
    (h1 : x < y) (h2 : y < z) : False := by
  have hx := toUpperCase_cases x
  have hy := toUpperCase_cases y
  have hz := toUpperCase_cases z
  omega

end Letters

section Order

variable {x y z : ℕ} {a b c : List ℕ}

theorem not_precedes_nil : ¬ Precedes a [] := by
  rintro ⟨⟩

theorem precedes_cons_of_eq (he : toUpperCase x = toUpperCase y) :
    Precedes (x :: a) (y :: b) ↔ Precedes a b := by
  constructor
  · intro h
    cases h with
    | here _ _ hne => exact absurd he hne
    | next _ h => exact h
  · exact .next he

theorem precedes_cons_of_ne (hne : toUpperCase x ≠ toUpperCase y) :
    Precedes (x :: a) (y :: b) ↔ x < y := by
  constructor
  · intro h
    cases h with
    | here _ _ _ hlt => exact hlt
    | next he => exact absurd he hne
  · exact .here a b hne

theorem between_cons_of_eq (hxy : toUpperCase x = toUpperCase y)
    (hyz : toUpperCase y = toUpperCase z) :
    Between (x :: a) (y :: b) (z :: c) ↔ Between a b c := by
  constructor
  · intro h
    cases h with
    | here _ _ _ _ h1 h2 => exact (not_three_cases hxy hyz h1 h2).elim
    | next _ _ h => exact h
  · exact .next hxy hyz

theorem between_cons_of_ne (hne : ¬ (toUpperCase x = toUpperCase y ∧ toUpperCase y = toUpperCase z)) :
    Between (x :: a) (y :: b) (z :: c) ↔ toUpperCase x = toUpperCase z ∧ x < y ∧ y < z := by
  constructor
  · intro h
    cases h with
    | here _ _ _ he h1 h2 => exact ⟨he, h1, h2⟩
    | next h1 h2 => exact absurd ⟨h1, h2⟩ hne
  · rintro ⟨he, h1, h2⟩
    exact .here a b c he h1 h2

theorem Between.nonempty (h : Between a b c) : a ≠ [] ∧ b ≠ [] ∧ c ≠ [] := by
  cases h with
  | here => exact ⟨List.cons_ne_nil _ _, List.cons_ne_nil _ _, List.cons_ne_nil _ _⟩
  | next => exact ⟨List.cons_ne_nil _ _, List.cons_ne_nil _ _, List.cons_ne_nil _ _⟩

theorem Crossed.nonempty (h : Crossed a b c) : a ≠ [] ∧ b ≠ [] ∧ c ≠ [] := by
  rcases h with ⟨h, -⟩ | ⟨h, -⟩ | ⟨h, -⟩
  · exact h.nonempty
  · exact ⟨h.nonempty.2.1, h.nonempty.2.2, h.nonempty.1⟩
  · exact ⟨h.nonempty.2.2, h.nonempty.1, h.nonempty.2.1⟩

/-- The first letter decides unless it is the same up to case. -/
theorem compareFat32_cons_of_ne (hx : x < 128) (hy : y < 128)
    (hne : toUpperCase x ≠ toUpperCase y) : compareFat32 (x :: a) (y :: b) = (x : ℤ) - y := by
  rw [compareFat32, commonPrefixDrop, if_neg fun h => hne h.2]
  change signedChar x - signedChar y = _
  rw [signedChar, if_pos hx, signedChar, if_pos hy]

theorem IsName.tail (h : IsName (x :: a)) : IsName a := fun c hc => h c (List.mem_cons_of_mem x hc)

theorem compareFat32_neg_iff (ha : IsName a) (hb : IsName b) :
    compareFat32 a b < 0 ↔ Precedes a b := by
  induction a generalizing b with
  | nil =>
    cases b with
    | nil => exact iff_of_false (by decide) not_precedes_nil
    | cons y b =>
      obtain ⟨h1, h2⟩ := hb y List.mem_cons_self
      refine iff_of_true ?_ (.short y b)
      change signedChar 0 - signedChar y < 0
      rw [signedChar, if_pos (by decide), signedChar, if_pos h2]
      omega
  | cons x a ih =>
    obtain ⟨h1, h2⟩ := ha x List.mem_cons_self
    cases b with
    | nil =>
      refine iff_of_false ?_ not_precedes_nil
      change ¬ signedChar x - signedChar 0 < 0
      rw [signedChar, if_pos h2, signedChar, if_pos (by decide)]
      omega
    | cons y b =>
      by_cases he : toUpperCase x = toUpperCase y
      · rw [compareFat32_cons h1.ne' he, precedes_cons_of_eq he]
        exact ih ha.tail hb.tail
      · rw [compareFat32_cons_of_ne h2 (hb y List.mem_cons_self).2 he, precedes_cons_of_ne he]
        omega

theorem compareFat32_neg (ha : IsName a) (hb : IsName b) :
    compareFat32 b a = - compareFat32 a b := by
  induction a generalizing b with
  | nil =>
    cases b with
    | nil => rfl
    | cons y b =>
      change signedChar y - signedChar 0 = - (signedChar 0 - signedChar y)
      omega
  | cons x a ih =>
    cases b with
    | nil =>
      change signedChar 0 - signedChar x = - (signedChar x - signedChar 0)
      omega
    | cons y b =>
      obtain ⟨h1, h2⟩ := ha x List.mem_cons_self
      obtain ⟨h3, h4⟩ := hb y List.mem_cons_self
      by_cases he : toUpperCase x = toUpperCase y
      · rw [compareFat32_cons h1.ne' he, compareFat32_cons h3.ne' he.symm]
        exact ih ha.tail hb.tail
      · rw [compareFat32_cons_of_ne h2 h4 he, compareFat32_cons_of_ne h4 h2 (Ne.symm he)]
        omega

theorem circle_cons_iff (hne : ¬ (toUpperCase x = toUpperCase y ∧ toUpperCase y = toUpperCase z)) :
    (¬ Precedes (y :: b) (x :: a) ∧ ¬ Precedes (z :: c) (y :: b) ∧ Precedes (z :: c) (x :: a)) ↔
      Crossed (x :: a) (y :: b) (z :: c) := by
  rw [Crossed, between_cons_of_ne hne, between_cons_of_ne fun h => hne ⟨h.2, h.2.symm.trans h.1.symm⟩,
    between_cons_of_ne fun h => hne ⟨h.2.symm.trans h.1.symm, h.1⟩]
  by_cases hxy : toUpperCase x = toUpperCase y
  · have hyz : toUpperCase y ≠ toUpperCase z := fun e => hne ⟨hxy, e⟩
    have hxz : toUpperCase x ≠ toUpperCase z := fun e => hyz (hxy.symm.trans e)
    have hlt : ¬ z < y ↔ y < z := not_lt.trans (Ne.le_iff_lt fun e => hyz (congrArg _ e))
    rw [precedes_cons_of_eq hxy.symm, precedes_cons_of_ne hyz.symm, precedes_cons_of_ne hxz.symm, hlt]
    have hzy := hyz.symm
    have hyx := hxy.symm
    grind
  · have hyx := Ne.symm hxy
    by_cases hyz : toUpperCase y = toUpperCase z
    · have hxz : toUpperCase x ≠ toUpperCase z := fun e => hxy (e.trans hyz.symm)
      have hlt : ¬ y < x ↔ x < y := not_lt.trans (Ne.le_iff_lt fun e => hxy (congrArg _ e))
      rw [precedes_cons_of_ne hyx, precedes_cons_of_eq hyz.symm, precedes_cons_of_ne hxz.symm, hlt]
      have hzy := hyz.symm
      grind
    · have hzy := Ne.symm hyz
      have h1 : ¬ y < x ↔ x < y := not_lt.trans (Ne.le_iff_lt fun e => hxy (congrArg _ e))
      have h2 : ¬ z < y ↔ y < z := not_lt.trans (Ne.le_iff_lt fun e => hyz (congrArg _ e))
      rw [precedes_cons_of_ne hyx, precedes_cons_of_ne hzy, h1, h2]
      by_cases hxz : toUpperCase x = toUpperCase z
      · rw [precedes_cons_of_eq hxz.symm]
        grind
      · have hcircle : ¬ (x < y ∧ y < z ∧ z < x) := by omega
        rw [precedes_cons_of_ne (Ne.symm hxz)]
        grind

theorem circle_iff (a b c : List ℕ) :
    (¬ Precedes b a ∧ ¬ Precedes c b ∧ Precedes c a) ↔ Crossed a b c := by
  induction a generalizing b c with
  | nil => exact iff_of_false (fun h => not_precedes_nil h.2.2) fun h => h.nonempty.1 rfl
  | cons x a ih =>
    cases b with
    | nil => exact iff_of_false (fun h => h.1 (.short x a)) fun h => h.nonempty.2.1 rfl
    | cons y b =>
      cases c with
      | nil => exact iff_of_false (fun h => h.2.1 (.short y b)) fun h => h.nonempty.2.2 rfl
      | cons z c =>
        by_cases he : toUpperCase x = toUpperCase y ∧ toUpperCase y = toUpperCase z
        · obtain ⟨hxy, hyz⟩ := he
          have hzx := (hxy.trans hyz).symm
          rw [Crossed, precedes_cons_of_eq hxy.symm, precedes_cons_of_eq hyz.symm,
            precedes_cons_of_eq hzx, between_cons_of_eq hxy hyz, between_cons_of_eq hzx hxy,
            between_cons_of_eq hyz hzx]
          exact ih b c
        · exact circle_cons_iff he

end Order

theorem orderedNames_iff {a b c : List ℕ} (ha : IsName a) (hb : IsName b) (hc : IsName c) :
    OrderedNames a b c ↔ ¬ Crossed a b c := by
  have hle : ∀ {p q : List ℕ}, IsName p → IsName q →
      (compareFat32 p q ≤ 0 ↔ ¬ Precedes q p) := by
    intro p q hp hq
    rw [← compareFat32_neg_iff hq hp, compareFat32_neg hp hq]
    omega
  have htrans : (compareFat32 a b ≤ 0 → compareFat32 b c ≤ 0 → compareFat32 a c ≤ 0) ↔
      ¬ Crossed a b c := by
    rw [← circle_iff, hle ha hb, hle hb hc, hle ha hc]
    tauto
  constructor
  · exact fun h => htrans.mp h.trans
  · intro h
    refine ⟨compareFat32_eq_zero_iff ha.isText hb.isText, ?_, htrans.mpr h⟩
    rw [compareFat32_neg ha hb]
    omega

theorem orderedNames_small : OrderedNames [97] [66] [98] := by
  refine (orderedNames_iff (by decide) (by decide) (by decide)).mpr ?_
  intro h
  have hcircle := (circle_iff _ _ _).mpr h
  exact hcircle.1 (.here _ _ (by decide) (by decide))

/-- "Z" comes before "a", and "a" is "A", but "Z" does not come before "A". -/
theorem compareFat32_not_ordered : ¬ ∀ a b c, IsName a → IsName b → IsName c →
    OrderedNames a b c := by
  intro h
  have h' := (h [90] [97] [65] (by decide) (by decide) (by decide)).trans (by decide) (by decide)
  exact absurd h' (by decide)

end OurOS.Fs
