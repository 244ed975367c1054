import Mathlib.Data.Nat.Digits.Lemmas
import Mathlib.Algebra.Order.Ring.Int

section Places

variable {b : ℕ} {char : ℕ → ℕ}

/-- The characters of the digits of `n`, highest place first; none of them for 0. -/
def placesText (b : ℕ) (char : ℕ → ℕ) (n : ℕ) : List ℕ := (Nat.digits b n).reverse.map char

@[simp] theorem placesText_zero (b : ℕ) (char : ℕ → ℕ) : placesText b char 0 = [] := by
  simp [placesText]

theorem placesText_of_ne_zero {n : ℕ} (hb : 1 < b) (hn : n ≠ 0) :
    placesText b char n = placesText b char (n / b) ++ [char (n % b)] := by
  simp [placesText, Nat.digits_eq_cons_digits_div hb hn]

end Places

def charOfDigit (n : ℕ) : ℕ := n + '0'.toNat

/-- `text` writes `n`: a minus sign where `n` is negative, then digits without leading zeros. -/
def IsDecimal (text : List ℕ) (n : ℤ) : Prop :=
  ∃ digits : List ℕ, digits ≠ [] ∧ (∀ d ∈ digits, d < 10) ∧ (digits.head? = some 0 → digits = [0]) ∧
    (text = digits.map charOfDigit ∧ n = (Nat.ofDigits 10 digits.reverse : ℕ) ∨
      text = '-'.toNat :: digits.map charOfDigit ∧ n ≠ 0 ∧ n = -(Nat.ofDigits 10 digits.reverse : ℕ))

def natText (n : ℕ) : List ℕ := if n = 0 then [charOfDigit 0] else placesText 10 charOfDigit n

def decimalText (n : ℤ) : List ℕ :=
  if n < 0 then '-'.toNat :: natText n.natAbs else natText n.natAbs

theorem natText_digits (n : ℕ) : ∃ digits : List ℕ, digits ≠ [] ∧ (∀ d ∈ digits, d < 10) ∧
    (digits.head? = some 0 → digits = [0]) ∧ natText n = digits.map charOfDigit ∧
    Nat.ofDigits 10 digits.reverse = n := by
  by_cases hn : n = 0
  · exact ⟨[0], by simp [natText, hn]⟩
  · refine ⟨(Nat.digits 10 n).reverse, by simpa [Nat.digits_eq_nil_iff_eq_zero] using hn, fun d hd => ?_, fun h => ?_, ?_, ?_⟩
    · exact Nat.digits_lt_base (by decide) (List.mem_reverse.mp hd)
    · rw [List.head?_reverse] at h
      rw [List.getLast?_eq_some_getLast (Nat.digits_ne_nil_iff_ne_zero.mpr hn)] at h
      exact absurd (Option.some.inj h) (Nat.getLast_digit_ne_zero 10 hn)
    · rw [natText, if_neg hn, placesText]
    · rw [List.reverse_reverse, Nat.ofDigits_digits]

theorem decimalText_isDecimal (n : ℤ) : IsDecimal (decimalText n) n := by
  obtain ⟨digits, hne, hlt, hzero, htext, hvalue⟩ := natText_digits n.natAbs
  refine ⟨digits, hne, hlt, hzero, ?_⟩
  by_cases hn : n < 0
  · refine .inr ⟨by rw [decimalText, if_pos hn, htext], hn.ne, ?_⟩
    rw [hvalue]
    omega
  · refine .inl ⟨by rw [decimalText, if_neg hn, htext], ?_⟩
    rw [hvalue]
    omega

example : decimalText (-120) = [45, 49, 50, 48] := by decide
