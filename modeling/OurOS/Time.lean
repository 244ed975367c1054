import Mathlib.Data.Nat.ModEq
import Mathlib.Tactic.Ring
import OurOS.Lib.Decimal
import OurOS.Utils

namespace OurOS

def ticksPerSecond : ℕ := 100000000

def secondsPerDay : ℕ := 24 * 60 * 60

def getTimeString (ticksHigh ticksLow : ℕ) : List ℕ :=
  -- Divide by 256
  let ticksLow := (ticksLow >>> 8) ||| (ticksHigh <<< 24) % uintRange
  let ticksHigh := ticksHigh >>> 8
  -- 2 ^ 32 / 390625: q = 10995, r = 45421
  let second := ticksHigh % 390625
  let second := (second * 10995 % uintRange + second * 45421 % uintRange % 390625) % uintRange
  let second := (second + ticksLow / 390625) % uintRange
  let minute := second / 60
  let hour := minute / 60
  let second := second % 60
  let minute := minute % 60
  let hour := hour % 24
  [charOfDigit (hour / 10), charOfDigit (hour % 10), ':'.toNat,
    charOfDigit (minute / 10), charOfDigit (minute % 10), ':'.toNat,
    charOfDigit (second / 10), charOfDigit (second % 10)]

section Specification

def twoDigits (n : ℕ) : List ℕ := [charOfDigit (n / 10), charOfDigit (n % 10)]

def clockText (seconds : ℕ) : List ℕ :=
  twoDigits (seconds / 3600 % 24) ++ ':'.toNat :: twoDigits (seconds / 60 % 60) ++
    ':'.toNat :: twoDigits (seconds % 60)

def uptime (ticksHigh ticksLow : ℕ) : ℕ := (ticksHigh * uintRange + ticksLow) / ticksPerSecond

theorem twoDigits_inj {n m : ℕ} : twoDigits n = twoDigits m ↔ n = m := by
  constructor
  · intro h
    simp only [twoDigits, charOfDigit, List.cons.injEq, and_true, Nat.add_right_cancel_iff] at h
    omega
  · rintro rfl
    rfl

theorem clockText_inj {s t : ℕ} : clockText s = clockText t ↔ s ≡ t [MOD secondsPerDay] := by
  have hlen (n : ℕ) : (twoDigits n).length = 2 := rfl
  constructor
  · intro h
    obtain ⟨h1, h2⟩ := List.append_inj h (by simp [hlen])
    obtain ⟨h3, h4⟩ := List.append_inj h1 (by simp [hlen])
    have hhour := twoDigits_inj.mp h3
    have hminute := twoDigits_inj.mp (List.cons.inj h4).2
    have hsecond := twoDigits_inj.mp (List.cons.inj h2).2
    rw [Nat.ModEq, secondsPerDay]
    omega
  · intro h
    rw [Nat.ModEq, secondsPerDay] at h
    have hhour : s / 3600 % 24 = t / 3600 % 24 := by omega
    have hminute : s / 60 % 60 = t / 60 % 60 := by omega
    have hsecond : s % 60 = t % 60 := by omega
    rw [clockText, clockText, hhour, hminute, hsecond]

end Specification

/-- The ticks over 256 are `highPart * 2 ^ 32 + lowPart`, and a second is 390625 of them. -/
def highPart (ticksHigh : ℕ) : ℕ := ticksHigh / 256

def lowPart (ticksHigh ticksLow : ℕ) : ℕ := ticksHigh % 256 * 2 ^ 24 + ticksLow / 256

theorem lowPart_eq {high low : ℕ} (hlow : low < uintRange) :
    (low >>> 8) ||| (high <<< 24) % uintRange = lowPart high low := by
  have hmod : (high <<< 24) % uintRange = (high % 256) <<< 24 := by
    rw [Nat.shiftLeft_eq, Nat.shiftLeft_eq, uintRange]
    omega
  have hlt : low >>> 8 < 2 ^ 24 := by
    rw [Nat.shiftRight_eq_div_pow]
    rw [uintRange] at hlow
    omega
  rw [hmod, Nat.lor_comm, ← Nat.shiftLeft_add_eq_or_of_lt hlt, lowPart, Nat.shiftLeft_eq,
    Nat.shiftRight_eq_div_pow]

/-- The seconds that `get_time_string` shows: for the high part it adds the remainder of a division by
390625 where the quotient is due. -/
def shownSeconds (ticksHigh ticksLow : ℕ) : ℕ :=
  let a := highPart ticksHigh % 390625
  (a * 10995 + a * 45421 % uintRange % 390625 + lowPart ticksHigh ticksLow / 390625) % uintRange

theorem getTimeString_eq {high low : ℕ} (hlow : low < uintRange) :
    getTimeString high low = clockText (shownSeconds high low) := by
  have hhigh : high >>> 8 = highPart high := Nat.shiftRight_eq_div_pow high 8
  simp only [getTimeString, lowPart_eq hlow, hhigh, Nat.mod_add_mod, Nat.div_div_eq_div_mul]
  rfl

theorem uptime_eq (high low : ℕ) :
    uptime high low = (highPart high * uintRange + lowPart high low) / 390625 := by
  have hparts : highPart high * uintRange + lowPart high low = (high * uintRange + low) / 256 := by
    simp only [highPart, lowPart, uintRange] at *
    omega
  rw [hparts, Nat.div_div_eq_div_mul]
  rfl

/-- The quotient `(A * 2 ^ 32 + B) / 390625` in the parts that `get_time_string` adds up. -/
theorem quotient_parts (A B : ℕ) :
    (A * uintRange + B) / 390625 = A / 390625 * uintRange + A % 390625 * 10995 + B / 390625 +
      (A % 390625 * 45421 + B % 390625) / 390625 := by
  have hA := Nat.div_add_mod A 390625
  have hB := Nat.div_add_mod B 390625
  have hsplit : A * uintRange + B =
      390625 * (A / 390625 * uintRange + A % 390625 * 10995 + B / 390625) +
        (A % 390625 * 45421 + B % 390625) := by
    rw [uintRange]
    omega
  rw [hsplit, Nat.mul_add_div (by decide)]

/-- The remainder added for the high part makes up, modulo the seconds of a day, for the quotient that
is due, for the seconds lost with `highPart / 390625` and for the wrap of the sum. -/
def HighWordMakesUp (ticksHigh ticksLow : ℕ) : Prop :=
  let a := highPart ticksHigh % 390625
  let added := a * 45421 % uintRange % 390625
  let due := (a * 45421 + lowPart ticksHigh ticksLow % 390625) / 390625
  let wraps := (a * 10995 + added + lowPart ticksHigh ticksLow / 390625) / uintRange
  added ≡ due + (highPart ticksHigh / 390625 + wraps) * uintRange [MOD secondsPerDay]

instance (high low : ℕ) : Decidable (HighWordMakesUp high low) :=
  inferInstanceAs (Decidable (_ % _ = _ % _))

theorem sum_modEq_iff {shown added rest due k wraps : ℕ}
    (hsum : shown + wraps * uintRange = added + rest) :
    shown ≡ k * uintRange + rest + due [MOD secondsPerDay] ↔
      added ≡ due + (k + wraps) * uintRange [MOD secondsPerDay] := by
  have hdue : k * uintRange + rest + due + wraps * uintRange =
      due + (k + wraps) * uintRange + rest := by ring
  constructor
  · intro h
    have hw := h.add_right (wraps * uintRange)
    rw [hsum, hdue] at hw
    exact hw.add_right_cancel' rest
  · intro h
    have hr := h.add_right rest
    rw [← hsum, ← hdue] at hr
    exact hr.add_right_cancel' (wraps * uintRange)

theorem shownSeconds_modEq_iff (high low : ℕ) :
    shownSeconds high low ≡ uptime high low [MOD secondsPerDay] ↔ HighWordMakesUp high low := by
  rw [uptime_eq, quotient_parts, add_assoc (_ * uintRange)]
  refine sum_modEq_iff ?_
  rw [mul_comm _ uintRange, shownSeconds, Nat.mod_add_div]
  ring

theorem highWordMakesUp_of_lt {high low : ℕ} (hhigh : high < 256) (hlow : low < uintRange) :
    HighWordMakesUp high low := by
  have hzero : highPart high = 0 := Nat.div_eq_of_lt hhigh
  have hwrap : lowPart high low / 390625 / uintRange = 0 := by
    simp only [lowPart, uintRange] at *
    omega
  have hdue : lowPart high low % 390625 / 390625 = 0 :=
    Nat.div_eq_of_lt (Nat.mod_lt _ (by decide))
  simp [HighWordMakesUp, hzero, hwrap, Nat.ModEq]

theorem getTimeString_eq_iff {high low : ℕ} (hlow : low < uintRange) :
    getTimeString high low = clockText (uptime high low) ↔
      high < 256 ∨ HighWordMakesUp high low := by
  rw [getTimeString_eq hlow, clockText_inj, shownSeconds_modEq_iff, iff_or_self]
  exact fun h => highWordMakesUp_of_lt h hlow

theorem getTimeString_eq_small :
    getTimeString 255 4294967295 = clockText (uptime 255 4294967295) :=
  (getTimeString_eq_iff (by decide)).mpr (.inl (by decide))

example : 256 ≤ 3622756 ∧ HighWordMakesUp 3622756 0 := by decide

theorem getTimeString_ne :
    getTimeString 256 0 ≠ clockText (uptime 256 0) := by decide +kernel

end OurOS
