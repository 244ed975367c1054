import Mathlib.Data.Nat.Bitwise
import Mathlib.Algebra.Order.Ring.Nat
import Mathlib.Tactic.Common

namespace OurOS

instance lawfulBEqPair : LawfulBEq (ℕ × ℕ) := inferInstance

def uintRange : ℕ := 2 ^ 32

def lowerAlign (x y : ℕ) : ℕ := x &&& (uintRange - y)

def upperAlign (x y : ℕ) : ℕ := lowerAlign ((x + (y - 1)) % uintRange) y

def getLowBits (src nBit : ℕ) : ℕ := if 32 ≤ nBit then src else src &&& (2 ^ nBit - 1)

theorem lowerAlign_eq {x k : ℕ} (hx : x < uintRange) (hk : k ≤ 32) :
    lowerAlign x (2 ^ k) = x / 2 ^ k * 2 ^ k := by
  have hsub : uintRange - 2 ^ k = 2 ^ k * (2 ^ (32 - k) - 1) := by
    rw [Nat.mul_sub, mul_one, ← pow_add, Nat.add_sub_cancel' hk, uintRange]
  refine Nat.eq_of_testBit_eq fun i => ?_
  rw [lowerAlign, hsub, Nat.testBit_and, Nat.testBit_two_pow_mul, Nat.testBit_two_pow_sub_one,
    mul_comm, Nat.testBit_two_pow_mul, Nat.testBit_div_two_pow]
  by_cases hi : k ≤ i
  · by_cases h32 : i < 32
    · simp [hi, show i - k < 32 - k by omega]
    · have hz : x.testBit i = false :=
        Nat.testBit_lt_two_pow (hx.trans_le (Nat.pow_le_pow_right two_pos (by omega)))
      simp [hz, show i - k + k = i by omega]
  · simp [hi]

theorem upperAlign_eq {x k : ℕ} (hx : x + (2 ^ k - 1) < uintRange) (hk : k ≤ 32) :
    upperAlign x (2 ^ k) = (x + (2 ^ k - 1)) / 2 ^ k * 2 ^ k := by
  rw [upperAlign, Nat.mod_eq_of_lt hx, lowerAlign_eq hx hk]

end OurOS
