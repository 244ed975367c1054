import Mathlib.Data.Int.Init
import OurOS.Lib.Decimal
import OurOS.Lib.Prog
import OurOS.Utils

namespace OurOS

/-- The values of the source's `int`. -/
abbrev CInt : Type := {n : ℤ // -2 ^ 31 ≤ n ∧ n < 2 ^ 31}

/-- The values of the source's `uint`. -/
abbrev CUint : Type := {n : ℕ // n < uintRange}

def minInt : CInt := ⟨-2 ^ 31, by decide⟩

def wrapInt (n : ℤ) : ℤ := Int.bmod n (2 ^ 32)

def wrapByte (n : ℤ) : ℕ := (n % 256).toNat

section Buffer

variable {α : Type}

/-- The loops that fill a buffer from its end: `ptr` is the free room before the characters stored so
far, and a store before the start of the buffer is stuck. -/
def storePlaces (done : α → Bool) (char : α → ℕ) (next : α → α) :
    ℕ → α → List ℕ → Option (ℕ × List ℕ)
  | 0, x, text => if done x then some (0, text) else none
  | ptr + 1, x, text =>
    if done x then some (ptr + 1, text)
    else storePlaces done char next ptr (next x) (char x :: text)

def storeChar (ch : ℕ) : ℕ × List ℕ → Option (ℕ × List ℕ)
  | (0, _) => none
  | (ptr + 1, text) => some (ptr, ch :: text)

theorem storePlaces_spec {done : α → Bool} {char : α → ℕ} {next : α → α} {b : ℕ} {place : ℕ → ℕ}
    (f : ℕ → α) (hb : 1 < b) (hdone : ∀ n, done (f n) = decide (n = 0))
    (hchar : ∀ n, char (f n) = place (n % b)) (hnext : ∀ n, next (f n) = f (n / b))
    (k : ℕ) {n ptr : ℕ} (hn : n < b ^ k) (text : List ℕ) :
    ∃ room, ptr ≤ room ∧
      storePlaces done char next (ptr + k) (f n) text = some (room, placesText b place n ++ text) := by
  induction k generalizing n ptr text with
  | zero =>
    obtain rfl : n = 0 := by simpa using hn
    refine ⟨ptr, le_rfl, ?_⟩
    cases ptr <;> simp [storePlaces, hdone]
  | succ k ih =>
    by_cases h0 : n = 0
    · exact ⟨ptr + (k + 1), Nat.le_add_right _ _, by simp [← Nat.add_assoc, storePlaces, hdone, h0]⟩
    · have hlt : n / b < b ^ k := Nat.div_lt_of_lt_mul (by rwa [← pow_succ'])
      obtain ⟨room, hroom, hrun⟩ := @ih (n / b) ptr hlt (place (n % b) :: text)
      refine ⟨room, hroom, ?_⟩
      rw [← Nat.add_assoc, storePlaces, hdone, hnext, hchar, placesText_of_ne_zero hb h0]
      simpa [h0] using hrun

end Buffer

/-- What `fs_putint` and `kernel_putint` make of their argument before the loop. -/
def magnitude (num : ℤ) : ℤ := if num < 0 then wrapInt (-num) else num

def storeInt : ℕ → ℤ → List ℕ → Option (ℕ × List ℕ) :=
  storePlaces (· == 0) (fun num => wrapByte (num.tmod 10 + '0'.toNat)) (·.tdiv 10)

def intBuffer (num : ℤ) : Option (List ℕ) := do
  let stored ← storeInt 11 (magnitude num) []
  let stored ← if num < 0 then storeChar '-'.toNat stored else some stored
  return stored.2

def hexMap (value : ℕ) : ℕ := if value < 10 then '0'.toNat + value else 'a'.toNat + (value - 10)

def hexChar (isUpper : Bool) (value : ℕ) : ℕ :=
  wrapByte (hexMap value + if isUpper ∧ 9 < value then ('A'.toNat : ℤ) - 'a'.toNat else 0)

def storeHex (isUpper : Bool) : ℕ → ℕ → List ℕ → Option (ℕ × List ℕ) :=
  storePlaces (· == 0) (fun hex => hexChar isUpper (hex &&& 0xF)) (· >>> 4)

def hexBuffer (isUpper : Bool) (hex : ℕ) : Option (List ℕ) :=
  (storeHex isUpper 11 hex []).map Prod.snd

theorem magnitude_eq {num : CInt} (h : num ≠ minInt) : magnitude num.1 = num.1.natAbs := by
  obtain ⟨num, h1, h2⟩ := num
  have hne : num ≠ -2 ^ 31 := fun e => h (Subtype.ext e)
  simp only [magnitude]
  split
  · rw [wrapInt, Int.bmod_eq_of_le (by omega) (by omega)]
    omega
  · omega

theorem storeInt_natCast {n k : ℕ} (ptr : ℕ) (hn : n < 10 ^ k) (text : List ℕ) :
    ∃ room, ptr ≤ room ∧
      storeInt (ptr + k) n text = some (room, placesText 10 charOfDigit n ++ text) := by
  refine storePlaces_spec (fun n : ℕ => (n : ℤ)) (by decide) (fun n => ?_) (fun n => ?_)
    (fun n => ?_) k hn text
  · exact decide_eq_decide.mpr Int.natCast_eq_zero
  · have hdigit : n % 10 < 10 := Nat.mod_lt n (by decide)
    have hmod : ((n : ℤ).tmod 10) = (n % 10 : ℕ) := rfl
    have hzero : '0'.toNat = 48 := rfl
    rw [hmod, wrapByte, charOfDigit, hzero]
    omega
  · rfl

theorem storeHex_eq {n k : ℕ} (isUpper : Bool) (ptr : ℕ) (hn : n < 16 ^ k) (text : List ℕ) :
    ∃ room, ptr ≤ room ∧
      storeHex isUpper (ptr + k) n text = some (room, placesText 16 (hexChar isUpper) n ++ text) := by
  refine storePlaces_spec id (by decide) (fun n => rfl) (fun n => ?_) (fun n => ?_) k hn text
  · exact congrArg (hexChar isUpper) (Nat.and_two_pow_sub_one_eq_mod n 4)
  · exact Nat.shiftRight_eq_div_pow n 4

theorem intBuffer_eq {num : CInt} (h : num ≠ minInt) (h0 : num.1 ≠ 0) :
    intBuffer num = some (decimalText num) := by
  have hlt : num.1.natAbs < 10 ^ 10 := by
    obtain ⟨num, h1, h2⟩ := num
    simp only
    omega
  have hnat : natText num.1.natAbs = placesText 10 charOfDigit num.1.natAbs :=
    if_neg (Int.natAbs_ne_zero.mpr h0)
  obtain ⟨room, hroom, hrun⟩ := storeInt_natCast 1 hlt []
  rw [List.append_nil, ← hnat] at hrun
  rw [intBuffer, magnitude_eq h, hrun, decimalText]
  by_cases hneg : num.1 < 0
  · obtain ⟨room, rfl⟩ := Nat.exists_eq_succ_of_ne_zero (Nat.ne_of_gt hroom)
    simp [hneg, storeChar]
  · simp [hneg]

theorem hexBuffer_eq (isUpper : Bool) (hex : CUint) :
    hexBuffer isUpper hex = some (placesText 16 (hexChar isUpper) hex) := by
  obtain ⟨room, -, hrun⟩ := storeHex_eq isUpper 3 (k := 8) hex.2 []
  rw [List.append_nil] at hrun
  rw [hexBuffer, hrun]
  rfl

end OurOS
