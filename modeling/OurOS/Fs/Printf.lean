import OurOS.Driver.Vga
import OurOS.Fs.ReadWrite

namespace OurOS.Fs

open Driver

def errorUnknownFormat : ℕ := 9

def fsPutchar (env : FsEnv) (fp ch : ℕ) : FsProg Unit := fsWrite env fp [ch]

section Emitters

variable {σ ε : Type} (putchar : ℕ → Prog σ ε Unit)

def fsPuts (string : List ℕ) : Prog σ ε Unit := Prog.forEach putchar string

def fsPutint (num : ℤ) : Prog σ ε Unit :=
  if magnitude num = 0 then putchar '0'.toNat
  else do
    let text ← Prog.fromOption (intBuffer num)
    fsPuts putchar text

/-- It returns what its loop leaves of `hex`, which is no error, and drops the error of the writes. -/
def fsPuthex (hex : ℕ) (isUpper : Bool) : Prog σ ε Unit := do
  let _ ← Prog.attempt <|
    if hex = 0 then putchar '0'.toNat
    else do
      let text ← Prog.fromOption (hexBuffer isUpper hex)
      fsPuts putchar text
  return

/-- The characters that both routines put out for `num`, all of them through the buffer but for 0. -/
def putintText (num : ℤ) : Option (List ℕ) :=
  if magnitude num = 0 then some ['0'.toNat] else intBuffer num

def hexText (isUpper : Bool) (num : ℕ) : List ℕ :=
  if num = 0 then ['0'.toNat] else placesText 16 (hexChar isUpper) num

theorem fsPuts_singleton (c : ℕ) : fsPuts putchar [c] = putchar c := by
  rw [fsPuts, Prog.forEach, Prog.forEach, bind_pure]

theorem fsPutint_eq {num : ℤ} {text : List ℕ} (h : putintText num = some text) :
    fsPutint putchar num = fsPuts putchar text := by
  rw [putintText] at h
  rw [fsPutint]
  by_cases hzero : magnitude num = 0
  · rw [if_pos hzero] at h ⊢
    obtain rfl := Option.some.inj h
    rw [fsPuts_singleton]
  · rw [if_neg hzero] at h ⊢
    rw [h, Prog.fromOption, pure_bind]

theorem fsPuthex_eq (hex : CUint) (isUpper : Bool) : fsPuthex putchar hex isUpper =
    (Prog.attempt (fsPuts putchar (hexText isUpper hex)) >>= fun _ => pure ()) := by
  rw [fsPuthex, hexText]
  by_cases hzero : hex.1 = 0
  · rw [if_pos hzero, if_pos hzero, fsPuts_singleton]
  · rw [if_neg hzero, if_neg hzero, hexBuffer_eq, Prog.fromOption, pure_bind]

end Emitters

section Decimal

/-- What is put out where every character can be. -/
def recordChar (ch : ℕ) : Prog (List ℕ) ℕ Unit := Prog.modify (· ++ [ch])

theorem forEach_recordChar (text out : List ℕ) :
    Prog.forEach recordChar text out = some (.ok (), out ++ text) := by
  induction text generalizing out with
  | nil => rw [List.append_nil]; rfl
  | cons c text ih =>
    rw [Prog.forEach, recordChar, Prog.modify_bind_run, ih, List.append_assoc]
    rfl

theorem fsPutint_record (num : ℤ) {text : List ℕ} (h : putintText num = some text) :
    fsPutint recordChar num [] = some (.ok (), text) := by
  rw [fsPutint_eq recordChar h]
  exact forEach_recordChar text []

theorem kernelPutint_record (num : ℤ) (fg bg : ℕ) {text : List ℕ} (h : putintText num = some text) :
    kernelPutint (fun ch _ _ => recordChar ch) num fg bg [] = some (.ok 0, text) := by
  rw [putintText] at h
  rw [kernelPutint]
  by_cases hzero : magnitude num = 0
  · rw [if_pos hzero] at *
    obtain rfl := Option.some.inj h
    rfl
  · rw [if_neg hzero] at *
    have hrun := forEach_recordChar text []
    have hput : kernelPutstring (fun ch _ _ => recordChar ch) text fg bg [] =
        some (.ok text.length, text) := Prog.bind_ok hrun
    rw [h, Prog.fromOption, pure_bind]
    exact Prog.bind_ok hput

theorem putintText_eq {num : CInt} (h : num ≠ minInt) : putintText num = some (decimalText num) := by
  have hmag : magnitude num.1 = 0 ↔ num.1 = 0 := by
    rw [magnitude_eq h, Int.natCast_eq_zero, Int.natAbs_eq_zero]
  rw [putintText]
  by_cases hzero : num.1 = 0
  · rw [if_pos (hmag.mpr hzero), hzero]
    rfl
  · rw [if_neg (mt hmag.mp hzero), intBuffer_eq h hzero]

/-- The digits of the least `int`, whose remainders stay negative. -/
def minIntText : List ℕ := "-./,),(-*,(".toList.map Char.toNat

theorem putintText_minInt : putintText minInt = some minIntText := by decide

theorem minIntText_not_decimal : ¬ IsDecimal minIntText minInt := by
  rintro ⟨digits, -, -, -, h⟩
  have hdot : '.'.toNat ∈ digits.map charOfDigit := by
    rcases h with ⟨h, -⟩ | ⟨h, -⟩
    · exact h ▸ by decide
    · exact (List.cons.inj h).2 ▸ by decide
  obtain ⟨d, -, hd⟩ := List.mem_map.mp hdot
  rw [charOfDigit] at hd
  exact absurd hd (Nat.ne_of_gt (Nat.lt_add_left d (by decide)))

/-- Both routines stay in their buffer and put out the same text, which writes `num`. -/
def PutsDecimal (num : CInt) : Prop :=
  ∀ fg bg, ∃ text, fsPutint recordChar num [] = some (.ok (), text) ∧
    kernelPutint (fun ch _ _ => recordChar ch) num fg bg [] = some (.ok 0, text) ∧
      IsDecimal text num

theorem PutsDecimal.isDecimal {num : CInt} {text : List ℕ} (h : PutsDecimal num)
    (htext : putintText num = some text) : IsDecimal text num := by
  obtain ⟨text', hfs, -, hdecimal⟩ := h 0 0
  rw [fsPutint_record _ htext] at hfs
  obtain rfl : text = text' := congrArg Prod.snd (Option.some.inj hfs)
  exact hdecimal

theorem putint_decimal_iff (num : CInt) : PutsDecimal num ↔ num ≠ minInt := by
  constructor
  · rintro h rfl
    exact minIntText_not_decimal (h.isDecimal putintText_minInt)
  · intro h fg bg
    have htext := putintText_eq h
    exact ⟨_, fsPutint_record _ htext, kernelPutint_record _ fg bg htext, decimalText_isDecimal _⟩

theorem putint_not_decimal : ¬ PutsDecimal minInt :=
  fun h => minIntText_not_decimal (h.isDecimal putintText_minInt)

end Decimal

end OurOS.Fs
