import Mathlib.Data.List.Find
import OurOS.Fs.PageCache

namespace OurOS.Fs

/-- A name without a zero byte. -/
def IsText (a : List ℕ) : Prop := ∀ c ∈ a, 0 < c ∧ c < 256

instance (a : List ℕ) : Decidable (IsText a) := inferInstanceAs (Decidable (∀ c ∈ a, _))

/-- A name without a zero byte, over characters of seven bits. -/
def IsName (a : List ℕ) : Prop := ∀ c ∈ a, 0 < c ∧ c < 128

instance (a : List ℕ) : Decidable (IsName a) := inferInstanceAs (Decidable (∀ c ∈ a, _))

def SameLetters (a b : List ℕ) : Prop := a.map toUpperCase = b.map toUpperCase

def IsLetter (c : ℕ) : Prop := toUpperCase c ≠ toLowerCase c

instance (c : ℕ) : Decidable (IsLetter c) := inferInstanceAs (Decidable (_ ≠ _))

def otherCase (c : ℕ) : ℕ := if toUpperCase c = c then toLowerCase c else toUpperCase c

/-- The high hexadecimal digit of a signed character, in 28 bits. -/
def highDigit (c : ℕ) : ℕ := if c < 128 then c / 16 else c / 16 + (2 ^ 28 - 16)

/-- A seventh digit comes back at the place of the lowest. -/
def wrapped (v : ℕ) : ℕ := v % 2 ^ 24 ^^^ v / 2 ^ 24

/-- A register of six digits takes in the sum of two digits that meet: the low one of the last
character, which is kept beside it, and the high one of the next. -/
def digitStep (r : ℕ × ℕ) (c : ℕ) : ℕ × ℕ :=
  (wrapped ((16 * r.1 + r.2 + highDigit c) % 2 ^ 28), c % 16)

def digits (name : List ℕ) : ℕ × ℕ := name.foldl digitStep (0, 0)

/-- The digits of the two names end in the same two bits. -/
def SameEnd (a b : List ℕ) : Prop := (digits a).1 % 4 = (digits b).1 % 4

instance (a b : List ℕ) : Decidable (SameEnd a b) := inferInstanceAs (Decidable (_ = _))

theorem IsName.isText {a : List ℕ} (h : IsName a) : IsText a :=
  fun c hc => ⟨(h c hc).1, (h c hc).2.trans (by decide)⟩

theorem IsText.tail {x : ℕ} {a : List ℕ} (h : IsText (x :: a)) : IsText a :=
  fun c hc => h c (List.mem_cons_of_mem x hc)

section Hash

variable {h c v : ℕ} {a b : List ℕ}

/-- The sum of a turn of `hash_string`, before its highest four bits are folded. -/
def hashSum (h c : ℕ) : ℕ := (h <<< 4 + if c < 128 then c else c + (uintRange - 256)) % uintRange

theorem highNibble_testBit (y i : ℕ) :
    (y &&& 0xF0000000).testBit i = (y.testBit i && (decide (28 ≤ i) && decide (i < 32))) := by
  have hmask : (0xF0000000 : ℕ) = (2 ^ 4 - 1) <<< 28 := by decide
  rw [Nat.testBit_and, hmask, Nat.testBit_shiftLeft, Nat.testBit_two_pow_sub_one]
  congr 2
  rw [decide_eq_decide]
  omega

theorem hashStep_testBit (h c i : ℕ) : (hashStep h c).testBit i =
    ((decide (i < 28) && (hashSum h c).testBit i) ^^
      (decide (4 ≤ i) && (decide (i < 8) && (hashSum h c).testBit (i + 24)))) := by
  have hlt : hashSum h c &&& 0xF0000000 < 2 ^ 32 :=
    Nat.and_lt_two_pow _ (by decide)
  have hstep : hashStep h c = if hashSum h c &&& 0xF0000000 ≠ 0 then
      (hashSum h c ^^^ ((hashSum h c &&& 0xF0000000) >>> 24)) &&&
        (uintRange - 1 - (hashSum h c &&& 0xF0000000)) else hashSum h c := rfl
  have hfold : ((hashSum h c &&& 0xF0000000) >>> 24).testBit i =
      (decide (4 ≤ i) && (decide (i < 8) && (hashSum h c).testBit (i + 24))) := by
    rw [Nat.testBit_shiftRight, highNibble_testBit, Nat.add_comm 24 i]
    by_cases h1 : 4 ≤ i
    · simp [h1, show 28 ≤ i + 24 by omega, show (i + 24 < 32) = (i < 8) by simp; omega,
        Bool.and_comm]
    · simp [h1, show ¬ 28 ≤ i + 24 by omega]
  have hhigh : 28 ≤ i → (hashSum h c).testBit i = (hashSum h c &&& 0xF0000000).testBit i := by
    intro hi
    rw [highNibble_testBit, decide_eq_true hi, Bool.true_and]
    by_cases h32 : i < 32
    · simp [h32]
    · have hsum : hashSum h c < 2 ^ i :=
        (Nat.mod_lt _ (by decide)).trans_le (Nat.pow_le_pow_right (by decide) (by omega))
      simp [h32, Nat.testBit_lt_two_pow hsum]
  rw [hstep, ← hfold]
  split_ifs with hx
  · rw [uintRange, Nat.sub_sub, Nat.add_comm 1, Nat.testBit_and, Nat.testBit_xor,
      Nat.testBit_two_pow_sub_succ hlt]
    by_cases hi : i < 28
    · rw [highNibble_testBit]
      simp [hi, show i < 32 by omega, show ¬ 28 ≤ i by omega]
    · rw [hfold, hhigh (by omega)]
      generalize (hashSum h c &&& 0xF0000000).testBit i = bit
      cases bit <;> simp [hi, show ¬ i < 8 by omega]
  · rw [not_not.mp hx] at hhigh ⊢
    by_cases hi : i < 28
    · simp [hi]
    · simp [hi, hhigh (by omega)]

theorem wrapped_testBit (v i : ℕ) :
    (wrapped v).testBit i = ((decide (i < 24) && v.testBit i) ^^ v.testBit (i + 24)) := by
  rw [wrapped, Nat.testBit_xor, Nat.testBit_mod_two_pow, Nat.testBit_div_two_pow]

theorem hashSum_digits (r l c : ℕ) : hashSum (16 * r + l) c =
    2 ^ 4 * ((16 * r + l + highDigit c) % 2 ^ 28) + c % 16 := by
  rw [hashSum, highDigit, Nat.shiftLeft_eq, uintRange]
  split_ifs <;> omega

theorem hashStep_digits (r l c : ℕ) : hashStep (16 * r + l) c =
    2 ^ 4 * wrapped ((16 * r + l + highDigit c) % 2 ^ 28) + c % 16 := by
  have hlow : c % 16 < 2 ^ 4 := Nat.mod_lt _ (by decide)
  refine Nat.eq_of_testBit_eq fun i => ?_
  rw [hashStep_testBit, hashSum_digits, Nat.testBit_two_pow_mul_add _ hlow,
    Nat.testBit_two_pow_mul_add _ hlow, Nat.testBit_two_pow_mul_add _ hlow, wrapped_testBit]
  generalize hv : (16 * r + l + highDigit c) % 2 ^ 28 = v
  have hlt : v < 2 ^ 28 := hv ▸ Nat.mod_lt _ (by decide)
  have hbit : ∀ j, 28 ≤ j → v.testBit j = false := fun j hj =>
    Nat.testBit_lt_two_pow (hlt.trans_le (Nat.pow_le_pow_right (by decide) hj))
  by_cases h4 : i < 4
  · simp [h4, show i < 28 by omega, show ¬ 4 ≤ i by omega]
  · rw [if_neg h4, if_neg h4, if_neg (by omega), show i + 24 - 4 = i - 4 + 24 by omega]
    by_cases h8 : i < 8
    · simp [h8, show 4 ≤ i by omega, show i < 28 by omega, show i - 4 < 24 by omega]
    · rw [hbit (i - 4 + 24) (by omega)]
      simp [h8, show (i - 4 < 24) = (i < 28) by simp; omega]

theorem digits_append (a : List ℕ) (c : ℕ) : digits (a ++ [c]) = digitStep (digits a) c := by
  rw [digits, List.foldl_append]
  rfl

theorem foldl_hashStep (a : List ℕ) :
    a.foldl hashStep 0 = 16 * (digits a).1 + (digits a).2 ∧ (digits a).2 < 16 := by
  induction a using List.reverseRecOn with
  | nil => exact ⟨rfl, by decide⟩
  | append_singleton a c ih =>
    rw [List.foldl_append, digits_append, ih.1]
    exact ⟨hashStep_digits _ _ c, Nat.mod_lt c (by decide)⟩

theorem hashString_eq (a : List ℕ) : hashString a = 16 * ((digits a).1 % 4) + (digits a).2 := by
  obtain ⟨h, hlt⟩ := foldl_hashStep a
  have hmask : hashMask = 2 ^ 6 - 1 := rfl
  rw [hashString, hmask, Nat.and_two_pow_sub_one_eq_mod, h]
  omega

end Hash

section Letters

variable {c d : ℕ} {a b : List ℕ}

theorem toUpperCase_cases (c : ℕ) :
    97 ≤ c ∧ c ≤ 122 ∧ toUpperCase c = c - 32 ∨ (c < 97 ∨ 122 < c) ∧ toUpperCase c = c := by
  rw [toUpperCase]
  split_ifs with h
  · exact .inl ⟨h.1, h.2, rfl⟩
  · exact .inr ⟨by omega, rfl⟩

theorem mod_of_toUpperCase (h : toUpperCase c = toUpperCase d) : c % 16 = d % 16 := by
  have hc := toUpperCase_cases c
  have hd := toUpperCase_cases d
  omega

/-- The two cases of a letter differ in the bit 1 of the high digit. -/
theorem eq_of_toUpperCase (h : toUpperCase c = toUpperCase d) (hq : c / 16 % 4 = d / 16 % 4) :
    c = d := by
  have hc := toUpperCase_cases c
  have hd := toUpperCase_cases d
  omega

theorem isLetter_iff : IsLetter c ↔ 65 ≤ c ∧ c ≤ 90 ∨ 97 ≤ c ∧ c ≤ 122 := by
  rw [IsLetter, toUpperCase, toLowerCase]
  split_ifs <;> omega

theorem otherCase_eq (hc : IsLetter c) : otherCase c = if c < 97 then c + 32 else c - 32 := by
  have hl := isLetter_iff.mp hc
  rw [otherCase, toUpperCase, toLowerCase]
  split_ifs <;> omega

theorem toUpperCase_otherCase (hc : IsLetter c) : toUpperCase c = toUpperCase (otherCase c) := by
  have hl := isLetter_iff.mp hc
  rw [otherCase_eq hc, toUpperCase, toUpperCase]
  split_ifs <;> omega

theorem otherCase_ne (hc : IsLetter c) : c ≠ otherCase c := by
  rw [otherCase_eq hc]
  split_ifs <;> omega

theorem signedChar_inj (hc : c < 256) (hd : d < 256) (h : signedChar c = signedChar d) : c = d := by
  rw [signedChar, signedChar] at h
  split_ifs at h <;> omega

theorem sameLetters_cons :
    SameLetters (c :: a) (d :: b) ↔ toUpperCase c = toUpperCase d ∧ SameLetters a b :=
  List.cons.injEq .. ▸ Iff.rfl

theorem compareFat32_cons (hc : c ≠ 0) (hcd : toUpperCase c = toUpperCase d)
    (a b : List ℕ) : compareFat32 (c :: a) (d :: b) = compareFat32 a b := by
  rw [compareFat32, commonPrefixDrop, if_pos ⟨hc, hcd⟩]
  rfl

theorem compareFat32_eq_zero_iff (ha : IsText a) (hb : IsText b) :
    compareFat32 a b = 0 ↔ SameLetters a b := by
  have hnil : ∀ {c}, 0 < c ∧ c < 256 → signedChar c ≠ 0 := fun hc h =>
    hc.1.ne' (signedChar_inj hc.2 (by decide) h)
  induction a generalizing b with
  | nil =>
    cases b with
    | nil => exact iff_of_true rfl rfl
    | cons d b =>
      refine iff_of_false (fun h => hnil (hb d List.mem_cons_self) ?_) (List.cons_ne_nil _ _).symm
      exact (sub_eq_zero.mp h).symm
  | cons c a ih =>
    cases b with
    | nil =>
      refine iff_of_false (fun h => hnil (ha c List.mem_cons_self) ?_) (List.cons_ne_nil _ _)
      exact sub_eq_zero.mp h
    | cons d b =>
      obtain ⟨hc0, hc⟩ := ha c List.mem_cons_self
      rw [sameLetters_cons]
      by_cases he : toUpperCase c = toUpperCase d
      · rw [compareFat32_cons hc0.ne' he, and_iff_right he]
        exact ih ha.tail hb.tail
      · rw [compareFat32, commonPrefixDrop, if_neg fun h => he h.2]
        refine iff_of_false (fun h => he ?_) fun h => he h.1
        exact congrArg _ (signedChar_inj hc (hb d List.mem_cons_self).2 (sub_eq_zero.mp h))

theorem SameLetters.isName (h : SameLetters a b) (ha : IsName a) (hb : IsText b) : IsName b := by
  intro d hd
  refine ⟨(hb d hd).1, ?_⟩
  have hmem : toUpperCase d ∈ a.map toUpperCase := h ▸ List.mem_map_of_mem hd
  obtain ⟨c, hc, he⟩ := List.mem_map.mp hmem
  have hlt := (ha c hc).2
  have hcc := toUpperCase_cases c
  have hdc := toUpperCase_cases d
  omega

theorem SameLetters.last (h : SameLetters a b) : a = [] ∧ b = [] ∨
    ∃ p q c d, a = p ++ [c] ∧ b = q ++ [d] ∧ SameLetters p q ∧ toUpperCase c = toUpperCase d := by
  rcases List.eq_nil_or_concat' a with rfl | ⟨p, c, rfl⟩
  · exact .inl ⟨rfl, List.map_eq_nil_iff.mp h.symm⟩
  · rcases List.eq_nil_or_concat' b with rfl | ⟨q, d, rfl⟩
    · exact absurd (List.map_eq_nil_iff.mp h) (List.concat_ne_nil _ _)
    · rw [SameLetters, List.map_append, List.map_append] at h
      obtain ⟨hp, hc⟩ := List.append_inj' h rfl
      exact .inr ⟨p, q, c, d, rfl, rfl, hp, List.singleton_inj.mp hc⟩

end Letters

section Ends

variable {c d v : ℕ} {a b : List ℕ}

theorem digits_low (h : SameLetters a b) : (digits a).2 = (digits b).2 := by
  rcases h.last with ⟨rfl, rfl⟩ | ⟨p, q, c, d, rfl, rfl, -, hcd⟩
  · rfl
  · rw [digits_append, digits_append]
    exact mod_of_toUpperCase hcd

theorem hashString_eq_iff (h : SameLetters a b) : hashString a = hashString b ↔ SameEnd a b := by
  rw [hashString_eq, hashString_eq, digits_low h, SameEnd]
  omega

theorem wrapped_of_lt (hv : v < 2 ^ 24) : wrapped v = v := by
  rw [wrapped, Nat.mod_eq_of_lt hv, Nat.div_eq_of_lt hv, Nat.xor_zero]

theorem digits_append_of_lt (hc : c < 128)
    (hv : 16 * (digits a).1 + (digits a).2 + c / 16 < 2 ^ 24) :
    (digits (a ++ [c])).1 = 16 * (digits a).1 + (digits a).2 + c / 16 := by
  have hhigh : highDigit c = c / 16 := if_pos hc
  rw [digits_append, digitStep, hhigh, Nat.mod_eq_of_lt (hv.trans (by decide)), wrapped_of_lt hv]

theorem IsName.append (h : IsName (a ++ [c])) : IsName a ∧ c < 128 :=
  ⟨fun d hd => h d (List.mem_append_left _ hd), (h c (List.mem_append_right _ List.mem_cons_self)).2⟩

/-- Six digits of seven-bit characters do not fill the register, whatever is carried. -/
theorem digits_short (ha : IsName a) (hlen : a.length ≤ 6) :
    15 * (digits a).1 + 22 ≤ 127 * 16 ^ (a.length - 1) := by
  induction a using List.reverseRecOn with
  | nil => decide
  | append_singleton a c ih =>
    obtain ⟨ha, hc⟩ := ha.append
    rw [List.length_append, List.length_singleton] at hlen ⊢
    have hr := ih ha (by omega)
    have hl := (foldl_hashStep a).2
    rcases List.eq_nil_or_concat' a with rfl | ⟨p, d, rfl⟩
    · rw [digits_append_of_lt hc (by change 0 + 0 + c / 16 < _; omega)]
      change 15 * (0 + 0 + c / 16) + 22 ≤ 127
      omega
    · have hpow : 16 ^ (p ++ [d]).length = 16 * 16 ^ ((p ++ [d]).length - 1) := by
        rw [List.length_append, List.length_singleton, Nat.add_sub_cancel, pow_succ, mul_comm]
      have hmax : 16 ^ ((p ++ [d]).length - 1) ≤ 16 ^ 4 :=
        Nat.pow_le_pow_right (by decide) (by omega)
      rw [Nat.add_sub_cancel, digits_append_of_lt hc (by omega), hpow]
      omega

theorem digits_last (ha : IsName (a ++ [c])) (hlen : (a ++ [c]).length ≤ 6) :
    (digits (a ++ [c])).1 = 16 * (digits a).1 + (digits a).2 + c / 16 := by
  obtain ⟨ha, hc⟩ := ha.append
  rw [List.length_append, List.length_singleton] at hlen
  have hr := digits_short ha (by omega)
  have hl := (foldl_hashStep a).2
  have hmax : 16 ^ (a.length - 1) ≤ 16 ^ 4 := Nat.pow_le_pow_right (by decide) (by omega)
  exact digits_append_of_lt hc (by omega)

theorem sameEnd_short_iff (h : SameLetters a b) (ha : IsName a) (hb : IsName b)
    (hlen : a.length ≤ 6) : SameEnd a b ↔ a.getLast? = b.getLast? := by
  have hlen' : b.length ≤ 6 := by
    rw [← List.length_map toUpperCase, ← h, List.length_map]
    exact hlen
  rcases h.last with ⟨rfl, rfl⟩ | ⟨p, q, c, d, rfl, rfl, hpq, hcd⟩
  · exact iff_of_true rfl rfl
  · rw [SameEnd, digits_last ha hlen, digits_last hb hlen', digits_low hpq, List.getLast?_concat,
      List.getLast?_concat, Option.some.injEq]
    constructor
    · intro he
      exact eq_of_toUpperCase hcd (by omega)
    · rintro rfl
      omega

/-- The bit 1 changes, or the carry out of the sixth digit changes the bit 0. -/
theorem wrapped_add_two (v : ℕ) : wrapped (v % 2 ^ 28) % 4 ≠ wrapped ((v + 2) % 2 ^ 28) % 4 := by
  intro h
  have hbit : ∀ i < 2, (wrapped (v % 2 ^ 28)).testBit i = (wrapped ((v + 2) % 2 ^ 28)).testBit i := by
    intro i hi
    have hi' := congrArg (fun x => Nat.testBit x i) h
    simpa only [show (4 : ℕ) = 2 ^ 2 from rfl, Nat.testBit_mod_two_pow, decide_eq_true hi,
      Bool.true_and] using hi'
  have h0 := hbit 0 (by decide)
  have h1 := hbit 1 (by decide)
  rw [wrapped_testBit, wrapped_testBit] at h0 h1
  simp only [Nat.testBit_eq_decide_div_mod_eq, show 0 < 24 by decide, show 1 < 24 by decide,
    decide_true, Bool.true_and] at h0 h1
  by_cases hcarry : v % 2 ^ 24 + 2 < 2 ^ 24
  · have hlow : v % 2 ^ 28 / 2 ^ 1 % 2 = 1 ↔ ¬ (v + 2) % 2 ^ 28 / 2 ^ 1 % 2 = 1 := by omega
    have htop : v % 2 ^ 28 / 2 ^ (1 + 24) % 2 = 1 ↔
        (v + 2) % 2 ^ 28 / 2 ^ (1 + 24) % 2 = 1 := by omega
    simp only [hlow, htop, decide_not, Bool.not_xor] at h1
    exact Bool.not_ne_self _ h1
  · have hlow : v % 2 ^ 28 / 2 ^ 0 % 2 = 1 ↔ (v + 2) % 2 ^ 28 / 2 ^ 0 % 2 = 1 := by omega
    have htop : v % 2 ^ 28 / 2 ^ (0 + 24) % 2 = 1 ↔
        ¬ (v + 2) % 2 ^ 28 / 2 ^ (0 + 24) % 2 = 1 := by omega
    simp only [hlow, htop, decide_not, Bool.xor_not] at h0
    exact Bool.not_ne_self _ h0

theorem not_sameEnd_of_highDigit (p : List ℕ) (h : highDigit d = highDigit c + 2) :
    ¬ SameEnd (p ++ [c]) (p ++ [d]) := by
  rw [SameEnd, digits_append, digits_append, digitStep, digitStep, h, ← Nat.add_assoc]
  exact wrapped_add_two _

theorem not_sameEnd_otherCase (p : List ℕ) (hc : IsLetter c) :
    ¬ SameEnd (p ++ [c]) (p ++ [otherCase c]) := by
  have hl := isLetter_iff.mp hc
  rw [otherCase_eq hc]
  split_ifs with hcap
  · refine not_sameEnd_of_highDigit p ?_
    rw [highDigit, highDigit, if_pos (by omega), if_pos (by omega)]
    omega
  · refine fun h => not_sameEnd_of_highDigit p ?_ h.symm
    rw [highDigit, highDigit, if_pos (by omega), if_pos (by omega)]
    omega

end Ends

section Lookup

variable {s : FsSys} {dir d : ℕ} {b : List ℕ}

structure CachedAs (s : FsSys) (dir d : ℕ) : Prop where
  bucket : ∀ i, d ∈ s.dCache.hash i → i = hashString (s.dentries d).dName
  found : lookupDCache s dir (s.dentries d).dName = some d
  text : IsText (s.dentries d).dName
  texts : ∀ e ∈ s.dCache.hash (hashString (s.dentries d).dName), IsText (s.dentries e).dName

structure FoundBy (s : FsSys) (dir d : ℕ) (b : List ℕ) : Prop where
  hash : hashString (s.dentries d).dName = hashString b
  lookup : lookupDCache s dir b = some d

theorem lookupDCache_apart (hd : CachedAs s dir d)
    (hb : hashString (s.dentries d).dName ≠ hashString b) : lookupDCache s dir b ≠ some d := by
  intro h
  rw [lookupDCache] at h
  exact hb (hd.bucket _ (List.mem_of_find?_eq_some h)).symm

theorem lookupDCache_spelling (hd : CachedAs s dir d) (hb : IsText b)
    (h : SameLetters (s.dentries d).dName b)
    (hhash : hashString (s.dentries d).dName = hashString b) : lookupDCache s dir b = some d := by
  rw [← hd.found, lookupDCache, lookupDCache, ← hhash]
  refine List.find?_congr fun e he => ?_
  have hiff : compareFat32 (s.dentries e).dName b = 0 ↔
      compareFat32 (s.dentries e).dName (s.dentries d).dName = 0 := by
    rw [compareFat32_eq_zero_iff (hd.texts e he) hb,
      compareFat32_eq_zero_iff (hd.texts e he) hd.text]
    exact ⟨fun h' => h'.trans h.symm, fun h' => h'.trans h⟩
  rw [Bool.eq_iff_iff, Bool.and_eq_true, Bool.and_eq_true, beq_iff_eq, beq_iff_eq, beq_iff_eq, hiff]

def FoundByNames (s : FsSys) (dir d : ℕ) : Prop :=
  ∀ b, IsText b → compareFat32 (s.dentries d).dName b = 0 → FoundBy s dir d b

theorem foundBy_iff_sameEnd (hd : CachedAs s dir d)
    (h : SameLetters (s.dentries d).dName b) (hb : IsText b) :
    FoundBy s dir d b ↔ SameEnd (s.dentries d).dName b := by
  rw [← hashString_eq_iff h]
  exact ⟨FoundBy.hash, fun hhash => ⟨hhash, lookupDCache_spelling hd hb h hhash⟩⟩

theorem otherCase_lost (hd : CachedAs s dir d) {c : ℕ} (hlast : c ∈ (s.dentries d).dName.getLast?)
    (hc : IsLetter c) : ¬ FoundByNames s dir d := by
  intro hall
  obtain ⟨p, hp⟩ := List.getLast?_eq_some_iff.mp hlast
  have hl := isLetter_iff.mp hc
  have hletters : SameLetters (s.dentries d).dName (p ++ [otherCase c]) := by
    rw [hp, SameLetters, List.map_append, List.map_append, List.map_singleton, List.map_singleton,
      toUpperCase_otherCase hc]
  have htext : IsText (p ++ [otherCase c]) := by
    intro x hx
    rcases List.mem_append.mp hx with hx | hx
    · exact hd.text x (hp ▸ List.mem_append_left _ hx)
    · rw [List.mem_singleton.mp hx, otherCase_eq hc]
      split_ifs <;> omega
  have hfound := hall _ htext ((compareFat32_eq_zero_iff hd.text htext).mpr hletters)
  have hend := (foundBy_iff_sameEnd hd hletters htext).mp hfound
  rw [hp] at hend
  exact not_sameEnd_otherCase p hc hend

theorem foundByNames_short_iff (hd : CachedAs s dir d) (hname : IsName (s.dentries d).dName)
    (hlen : (s.dentries d).dName.length ≤ 6) :
    FoundByNames s dir d ↔ ∀ c ∈ (s.dentries d).dName.getLast?, ¬ IsLetter c := by
  refine ⟨fun h c hc hl => otherCase_lost hd hc hl h, fun h b hb hcmp => ?_⟩
  have hletters := (compareFat32_eq_zero_iff hd.text hb).mp hcmp
  refine (foundBy_iff_sameEnd hd hletters hb).mpr ?_
  refine (sameEnd_short_iff hletters hname (hletters.isName hname hb) hlen).mpr ?_
  rcases hletters.last with ⟨ha, rfl⟩ | ⟨p, q, x, y, ha, rfl, -, hxy⟩
  · rw [ha]
  · rw [ha, List.getLast?_concat, List.getLast?_concat]
    have hx := h x (ha ▸ List.getLast?_concat)
    rw [isLetter_iff] at hx
    have hxc := toUpperCase_cases x
    have hyc := toUpperCase_cases y
    congr 1
    omega

/-- Two spellings have one hash value, and both find the dentry, exactly where their digits end in
the same two bits. In a name of up to six characters only the case of the last one counts, and a
name of any length that ends in a letter is lost under the other case of that letter. -/
theorem foundBy_iff (hd : CachedAs s dir d) :
    (∀ a b, IsText a → IsText b → compareFat32 a b = 0 →
      (hashString a = hashString b ↔ SameEnd a b)) ∧
    (∀ b, IsText b → compareFat32 (s.dentries d).dName b = 0 →
      (FoundBy s dir d b ↔ SameEnd (s.dentries d).dName b)) ∧
    (IsName (s.dentries d).dName → (s.dentries d).dName.length ≤ 6 →
      (FoundByNames s dir d ↔ ∀ c ∈ (s.dentries d).dName.getLast?, ¬ IsLetter c)) ∧
    ∀ c ∈ (s.dentries d).dName.getLast?, IsLetter c → ¬ FoundByNames s dir d :=
  ⟨fun _ _ ha hb h => hashString_eq_iff ((compareFat32_eq_zero_iff ha hb).mp h),
    fun _ hb h => foundBy_iff_sameEnd hd ((compareFat32_eq_zero_iff hd.text hb).mp h) hb,
    foundByNames_short_iff hd, fun _ => otherCase_lost hd⟩

end Lookup

/-- The dentry 7 of the root directory is cached under a name. -/
def cachedUnder (name : List ℕ) : FsSys :=
  { blankSys with
    dentries := fun _ => ⟨1, false, false, [], 0, 0, some 0, name⟩
    dCache := blankSys.dCache.add (hashString name) 7 }

theorem cachedUnder_hash (name : List ℕ) (i : ℕ) :
    (cachedUnder name).dCache.hash i = if i = hashString name then [7] else [] :=
  Function.update_apply _ _ _ _

theorem cachedUnder_cachedAs (name : List ℕ) (h : IsText name) :
    CachedAs (cachedUnder name) 0 7 where
  bucket i hi := by
    change i = hashString name
    by_contra hne
    rw [cachedUnder_hash, if_neg hne] at hi
    cases hi
  found := by
    change lookupDCache _ 0 name = _
    have hcmp : compareFat32 name name = 0 := (compareFat32_eq_zero_iff h h).mpr rfl
    rw [lookupDCache, cachedUnder_hash, if_pos rfl]
    exact List.find?_cons_of_pos (by rw [Bool.and_eq_true, beq_iff_eq, beq_iff_eq]; exact ⟨rfl, hcmp⟩)
  text := h
  texts _ _ := h

/-- "doc1" is found by all its spellings and "a" is not, "readme.txt" is found as "Readme.txt" and
not as "READme.txt". -/
theorem foundBy_iff_small :
    FoundByNames (cachedUnder [100, 111, 99, 49]) 0 7 ∧ ¬ FoundByNames (cachedUnder [97]) 0 7 ∧
      FoundBy (cachedUnder [114, 101, 97, 100, 109, 101, 46, 116, 120, 116]) 0 7
        [82, 101, 97, 100, 109, 101, 46, 116, 120, 116] ∧
      ¬ FoundBy (cachedUnder [114, 101, 97, 100, 109, 101, 46, 116, 120, 116]) 0 7
        [82, 69, 65, 68, 109, 101, 46, 116, 120, 116] := by
  have hdoc := foundBy_iff (cachedUnder_cachedAs [100, 111, 99, 49] (by decide))
  have ha := foundBy_iff (cachedUnder_cachedAs [97] (by decide))
  have hreadme := foundBy_iff
    (cachedUnder_cachedAs [114, 101, 97, 100, 109, 101, 46, 116, 120, 116] (by decide))
  refine ⟨(hdoc.2.2.1 (by decide) (by decide)).mpr ?_, ha.2.2.2 97 rfl (by decide),
    (hreadme.2.1 _ (by decide) (by decide)).mpr (by decide),
    fun h => absurd ((hreadme.2.1 _ (by decide) (by decide)).mp h) (by decide)⟩
  intro c hc
  obtain rfl : 49 = c := Option.some.inj hc
  decide

theorem hashString_not_case_blind :
    ¬ (∀ a b : List ℕ, IsText a → IsText b → compareFat32 a b = 0 → hashString a = hashString b) ∧
      lookupDCache (cachedUnder [97]) 0 [97] = some 7 ∧
      lookupDCache (cachedUnder [97]) 0 [65] = none := by
  refine ⟨fun h => ?_, by decide +kernel, by decide +kernel⟩
  exact absurd (h [97] [65] (by decide) (by decide) (by decide)) (by decide)

end OurOS.Fs
