import OurOS.Fs.Printf
import OurOS.Fs.ByteFileRun

namespace OurOS.Fs

inductive Arg where
  | int (num : CInt)
  | uint (num : CUint)
  | str (string : List ℕ)

def Arg.takeInt : List Arg → Option (CInt × List Arg)
  | .int num :: args => some (num, args)
  | _ => none

def Arg.takeUint : List Arg → Option (CUint × List Arg)
  | .uint num :: args => some (num, args)
  | _ => none

def Arg.takeStr : List Arg → Option (List ℕ × List Arg)
  | .str string :: args => some (string, args)
  | _ => none

/-- The bytes of the format string, which end with its terminator. -/
def formatAt (format : List ℕ) (i : ℕ) : Option ℕ := (format ++ [0])[i]?

section Printf

variable {σ : Type} (putchar : ℕ → Prog σ ℕ Unit)

def fsDirective (type : ℕ) (args : List Arg) : Prog σ ℕ (List Arg) :=
  if type = 'c'.toNat then do
    let (valch, args) ← Prog.fromOption (Arg.takeInt args)
    putchar (wrapByte valch)
    return args
  else if type = 'd'.toNat then do
    let (valint, args) ← Prog.fromOption (Arg.takeInt args)
    fsPutint putchar valint
    return args
  else if type = 'x'.toNat ∨ type = 'X'.toNat then do
    let (valint, args) ← Prog.fromOption (Arg.takeUint args)
    fsPuthex putchar valint (type = 'X'.toNat)
    return args
  else if type = 's'.toNat then do
    let (valstr, args) ← Prog.fromOption (Arg.takeStr args)
    fsPuts putchar valstr
    return args
  else Prog.throw errorUnknownFormat

def fsPrintfLoop (format : List ℕ) : ℕ → ℕ → List Arg → Prog σ ℕ Unit
  | 0, _, _ => Prog.stuck
  | fuel + 1, i, args => do
    let ch ← Prog.fromOption (formatAt format i)
    if ch = 0 then return
    else if ch ≠ '%'.toNat then
      putchar ch
      fsPrintfLoop format fuel (i + 1) args
    else
      let type ← Prog.fromOption (formatAt format (i + 1))
      let args ← fsDirective putchar type args
      fsPrintfLoop format fuel (i + 2) args

def fsPrintfArgList (format : List ℕ) (args : List Arg) : Prog σ ℕ Unit :=
  fsPrintfLoop putchar format (format.length + 1) 0 args

end Printf

def fsPrintf (env : FsEnv) (fp : ℕ) (format : List ℕ) (args : List Arg) : FsProg Unit :=
  fsPrintfArgList (fsPutchar env fp) format args

section Expansion

/-- A literal, a directive with its argument, or a directive that there is not. -/
inductive Piece where
  | text (chars : List ℕ)
  | int (num : CInt)
  | hex (num : CUint) (isUpper : Bool)
  | malformed

def Piece.chars : Piece → List ℕ
  | .text chars => chars
  | .int num => decimalText num
  | .hex num isUpper => hexText isUpper num
  | .malformed => []

def pieceOf (type : ℕ) (args : List Arg) : Option (Piece × List Arg) :=
  if type = 'c'.toNat then (Arg.takeInt args).map fun p => (.text [wrapByte p.1], p.2)
  else if type = 'd'.toNat then (Arg.takeInt args).map fun p => (.int p.1, p.2)
  else if type = 'x'.toNat ∨ type = 'X'.toNat then
    (Arg.takeUint args).map fun p => (.hex p.1 (type = 'X'.toNat), p.2)
  else if type = 's'.toNat then (Arg.takeStr args).map fun p => (.text p.1, p.2)
  else some (.malformed, args)

/-- The pieces of a format string up to its first malformed directive, where the arguments match. -/
def pieces : List ℕ → List Arg → Option (List Piece)
  | [], _ => some []
  | [ch], _ => some [if ch = '%'.toNat then .malformed else .text [ch]]
  | ch :: type :: format, args =>
    if ch = '%'.toNat then
      match pieceOf type args with
      | none => none
      | some (.malformed, _) => some [.malformed]
      | some (piece, args) => (pieces format args).map (piece :: ·)
    else (pieces (type :: format) args).map (.text [ch] :: ·)

variable {σ : Type} (putchar : ℕ → Prog σ ℕ Unit)

def Piece.print : Piece → Prog σ ℕ Unit
  | .malformed => Prog.throw errorUnknownFormat
  | piece => fsPuts putchar piece.chars

def printPieces (ps : List Piece) : Prog σ ℕ Unit := Prog.forEach (Piece.print putchar) ps

def Piece.put : Piece → Prog σ ℕ Unit
  | .text chars => fsPuts putchar chars
  | .int num => fsPutint putchar num
  | .hex num isUpper => fsPuthex putchar num isUpper
  | .malformed => Prog.throw errorUnknownFormat

theorem formatAt_append (pre rest : List ℕ) (i : ℕ) :
    formatAt (pre ++ rest) (pre.length + i) = (rest ++ [0])[i]? := by
  rw [formatAt, List.append_assoc, List.getElem?_append_right (Nat.le_add_right _ _),
    Nat.add_sub_cancel_left]

theorem fsDirective_eq {type : ℕ} {args args' : List Arg} {piece : Piece}
    (h : pieceOf type args = some (piece, args')) :
    fsDirective putchar type args = do Piece.put putchar piece; return args' := by
  rw [pieceOf] at h
  rw [fsDirective]
  by_cases hc : type = 'c'.toNat
  · rw [if_pos hc] at h ⊢
    obtain ⟨p, hp, he⟩ := Option.map_eq_some_iff.mp h
    cases he
    rw [hp, Piece.put, fsPuts_singleton]
    rfl
  rw [if_neg hc] at h ⊢
  by_cases hd : type = 'd'.toNat
  · rw [if_pos hd] at h ⊢
    obtain ⟨p, hp, he⟩ := Option.map_eq_some_iff.mp h
    cases he
    rw [hp]
    rfl
  rw [if_neg hd] at h ⊢
  by_cases hx : type = 'x'.toNat ∨ type = 'X'.toNat
  · rw [if_pos hx] at h ⊢
    obtain ⟨p, hp, he⟩ := Option.map_eq_some_iff.mp h
    cases he
    rw [hp]
    rfl
  rw [if_neg hx] at h ⊢
  by_cases hs : type = 's'.toNat
  · rw [if_pos hs] at h ⊢
    obtain ⟨p, hp, he⟩ := Option.map_eq_some_iff.mp h
    cases he
    rw [hp]
    rfl
  · rw [if_neg hs] at h ⊢
    cases h
    rfl

theorem fsPrintfLoop_text (format : List ℕ) {fuel i ch : ℕ} (args : List Arg)
    (hch : formatAt format i = some ch) (hnul : ch ≠ 0) (hlit : ch ≠ '%'.toNat) :
    fsPrintfLoop putchar format (fuel + 1) i args =
      (putchar ch >>= fun _ => fsPrintfLoop putchar format fuel (i + 1) args) := by
  rw [fsPrintfLoop, hch, Prog.fromOption, pure_bind, if_neg hnul, if_pos hlit]

theorem fsPrintfLoop_directive (format : List ℕ) {fuel i type : ℕ} (args : List Arg)
    (hch : formatAt format i = some '%'.toNat) (htype : formatAt format (i + 1) = some type) :
    fsPrintfLoop putchar format (fuel + 1) i args =
      (fsDirective putchar type args >>= fsPrintfLoop putchar format fuel (i + 2)) := by
  rw [fsPrintfLoop, hch, Prog.fromOption, pure_bind, if_neg (by decide),
    if_neg (not_not_intro rfl), htype, Prog.fromOption, pure_bind]

theorem fsPrintfLoop_end (format : List ℕ) {fuel i : ℕ} (args : List Arg)
    (hch : formatAt format i = some 0) : fsPrintfLoop putchar format (fuel + 1) i args = pure () := by
  rw [fsPrintfLoop, hch, Prog.fromOption, pure_bind, if_pos rfl]

theorem fsPrintfLoop_eq (pre : List ℕ) {rest : List ℕ} (hnul : 0 ∉ rest) {args : List Arg}
    {ps : List Piece} (h : pieces rest args = some ps) {fuel : ℕ} (hfuel : rest.length < fuel) :
    fsPrintfLoop putchar (pre ++ rest) fuel pre.length args =
      Prog.forEach (Piece.put putchar) ps := by
  induction rest, args using pieces.induct generalizing pre ps fuel with
  | case1 args =>
    obtain ⟨fuel, rfl⟩ := Nat.exists_eq_add_of_lt hfuel
    cases h
    exact fsPrintfLoop_end putchar _ args (formatAt_append pre [] 0)
  | case2 ch args =>
    have hch : formatAt (pre ++ [ch]) pre.length = some ch := formatAt_append pre [ch] 0
    have hend : formatAt (pre ++ [ch]) (pre.length + 1) = some 0 := formatAt_append pre [ch] 1
    obtain ⟨fuel, rfl⟩ : ∃ n, fuel = n + 1 + 1 := ⟨fuel - 2, by simp at hfuel; omega⟩
    cases h
    by_cases hpercent : ch = '%'.toNat
    · rw [if_pos hpercent]
      rw [fsPrintfLoop_directive putchar _ args (hpercent ▸ hch) hend]
      rfl
    · have hne : ch ≠ 0 := fun e => hnul (e ▸ List.mem_singleton_self ch)
      rw [if_neg hpercent, fsPrintfLoop_text putchar _ args hch hne hpercent,
        fsPrintfLoop_end putchar _ args hend, Prog.forEach, Piece.put, fsPuts_singleton]
      rfl
  | case3 type format args hnone =>
    rw [pieces, if_pos rfl, hnone] at h
    cases h
  | case4 type format args args' hbad =>
    obtain ⟨fuel, rfl⟩ : ∃ n, fuel = n + 1 := ⟨fuel - 1, by omega⟩
    rw [pieces, if_pos rfl, hbad] at h
    cases h
    rw [fsPrintfLoop_directive putchar _ args (formatAt_append pre _ 0) (formatAt_append pre _ 1),
      fsDirective_eq putchar hbad]
    rfl
  | case5 type format args piece args' hne hpiece ih =>
    obtain ⟨fuel, rfl⟩ : ∃ n, fuel = n + 1 := ⟨fuel - 1, by omega⟩
    have hmap : (pieces format args').map (piece :: ·) = some ps := by
      rw [pieces, if_pos rfl, hpiece] at h
      cases piece with
      | malformed => exact absurd rfl hne
      | text chars => exact h
      | int num => exact h
      | hex num isUpper => exact h
    obtain ⟨qs, hqs, rfl⟩ := Option.map_eq_some_iff.mp hmap
    have hless : format.length < fuel := by simp only [List.length_cons] at hfuel; omega
    have hrest := ih (pre ++ ['%'.toNat, type])
      (fun h0 => hnul (List.mem_cons_of_mem _ (List.mem_cons_of_mem _ h0))) hqs hless
    rw [List.append_assoc, List.length_append] at hrest
    rw [fsPrintfLoop_directive putchar _ args (formatAt_append pre _ 0) (formatAt_append pre _ 1),
      fsDirective_eq putchar hpiece, bind_assoc, Prog.forEach, ← hrest]
    rfl
  | case6 ch type format args hlit ih =>
    obtain ⟨fuel, rfl⟩ : ∃ n, fuel = n + 1 := ⟨fuel - 1, by omega⟩
    rw [pieces, if_neg hlit] at h
    obtain ⟨qs, hqs, rfl⟩ := Option.map_eq_some_iff.mp h
    have hne : ch ≠ 0 := fun e => hnul (e ▸ List.mem_cons_self)
    have hless : (type :: format).length < fuel := Nat.succ_lt_succ_iff.mp hfuel
    have hrest := ih (pre ++ [ch]) (fun h0 => hnul (List.mem_cons_of_mem _ h0)) hqs hless
    rw [List.append_assoc, List.length_append] at hrest
    rw [fsPrintfLoop_text putchar _ args (formatAt_append pre _ 0) hne hlit, Prog.forEach,
      Piece.put, fsPuts_singleton, ← hrest]
    rfl

theorem fsPrintfArgList_eq {format : List ℕ} (hnul : 0 ∉ format) {args : List Arg}
    {ps : List Piece} (h : pieces format args = some ps) :
    fsPrintfArgList putchar format args = Prog.forEach (Piece.put putchar) ps :=
  fsPrintfLoop_eq putchar [] hnul h (Nat.lt_succ_self _)

end Expansion

section Written

variable {σ : Type} (putchar : ℕ → Prog σ ℕ Unit)

def logged (c : ℕ) : Prog (σ × List ℕ) ℕ Unit := fun s =>
  match putchar c s.1 with
  | none => none
  | some (.error e, t) => some (.error e, t, s.2)
  | some (.ok _, t) => some (.ok (), t, s.2 ++ [c])

def printed (r : Option (Except ℕ Unit × σ × List ℕ)) : Option (Except ℕ Unit × List ℕ) :=
  r.map fun p => (p.1, p.2.2)

variable {putchar}

theorem logged_ok {c : ℕ} {s t : σ} (h : putchar c s = some (.ok (), t)) (l : List ℕ) :
    logged putchar c (s, l) = some (.ok (), t, l ++ [c]) := by
  rw [logged, h]

theorem logged_error {c e : ℕ} {s t : σ} (h : putchar c s = some (.error e, t)) (l : List ℕ) :
    logged putchar c (s, l) = some (.error e, t, l) := by
  rw [logged, h]

theorem logged_none {c : ℕ} {s : σ} (h : putchar c s = none) (l : List ℕ) :
    logged putchar c (s, l) = none := by
  rw [logged, h]

theorem fsPuts_logged (cs : List ℕ) (s : σ) (l : List ℕ) :
    match fsPuts putchar cs s with
    | none => fsPuts (logged putchar) cs (s, l) = none
    | some (.ok _, t) => fsPuts (logged putchar) cs (s, l) = some (.ok (), t, l ++ cs)
    | some (.error e, t) => ∃ m, fsPuts (logged putchar) cs (s, l) = some (.error e, t, m) := by
  induction cs generalizing s l with
  | nil =>
    rw [fsPuts, fsPuts, Prog.forEach, Prog.forEach, List.append_nil]
    rfl
  | cons c cs ih =>
    rw [fsPuts, fsPuts, Prog.forEach, Prog.forEach]
    cases hc : putchar c s with
    | none => rw [Prog.bind_none hc]; exact Prog.bind_none (logged_none hc l)
    | some p =>
      obtain ⟨e | u, t⟩ := p
      · rw [Prog.bind_error hc]
        exact ⟨l, Prog.bind_error (logged_error hc l)⟩
      · have hrest := ih t (l ++ [c])
        rw [List.append_assoc] at hrest
        rw [Prog.bind_ok hc, Prog.bind_ok (logged_ok hc l)]
        exact hrest

/-- Nothing that was written is lost from the record. -/
def LogGrows (s t : σ × List ℕ) : Prop := s.2 <+: t.2

instance : Std.Refl (LogGrows (σ := σ)) := ⟨fun s => List.prefix_refl s.2⟩

instance : IsTrans (σ × List ℕ) LogGrows := ⟨fun _ _ _ => List.IsPrefix.trans⟩

theorem logged_grows (c : ℕ) : Prog.Keeps LogGrows (logged putchar c) := by
  rintro ⟨s, l⟩ r t h
  rcases hc : putchar c s with _ | ⟨e | u, v⟩
  · rw [logged_none hc] at h
    cases h
  · rw [logged_error hc] at h
    cases h
    exact List.prefix_refl l
  · rw [logged_ok hc] at h
    cases h
    exact List.prefix_append l [c]

theorem fsPuts_grows (cs : List ℕ) : Prog.Keeps LogGrows (fsPuts (logged putchar) cs) :=
  Prog.Keeps.forEach logged_grows cs

def intText (num : CInt) : List ℕ := if num = minInt then minIntText else decimalText num

theorem fsPutint_text (num : CInt) (put : ℕ → Prog σ ℕ Unit) :
    fsPutint put num = fsPuts put (intText num) := by
  refine fsPutint_eq put ?_
  rw [intText]
  by_cases hmin : num = minInt
  · rw [if_pos hmin, hmin, putintText_minInt]
  · rw [if_neg hmin, putintText_eq hmin]

theorem pieces_grow (ps : List Piece) :
    Prog.Keeps LogGrows (Prog.forEach (Piece.put (logged putchar)) ps) := by
  refine Prog.Keeps.forEach (fun piece => ?_) ps
  cases piece with
  | text chars => exact fsPuts_grows chars
  | int num =>
    rw [Piece.put, fsPutint_text]
    exact fsPuts_grows _
  | hex num isUpper =>
    rw [Piece.put, fsPuthex_eq]
    exact (fsPuts_grows _).attempt.bind fun _ => Prog.Keeps.pure ()
  | malformed => exact Prog.Keeps.throw errorUnknownFormat

variable (putchar)

/-- The rest of a run whose error was lost still writes nothing and ends with that error: up to its
first character of another directive only hex directives follow, and all these writes fail. -/
def Harmless (e : ℕ) : List Piece → σ → Prop
  | [], _ => False
  | .malformed :: _, _ => e = errorUnknownFormat
  | .text [] :: ps, s => Harmless e ps s
  | .text (c :: _) :: _, s => ∃ t, putchar c s = some (.error e, t)
  | .int num :: _, s => ∃ c ∈ (intText num).head?, ∃ t, putchar c s = some (.error e, t)
  | .hex num isUpper :: ps, s => ∃ c ∈ (hexText isUpper num).head?, ∃ e' t,
      putchar c s = some (.error e', t) ∧ Harmless e ps t

/-- After its sign the least `int` is put out with the wrong characters. -/
def StopsAtSign (s : σ) : Prop := ∀ t, putchar '-'.toNat s = some (.ok (), t) →
  ∃ e u v, putchar '.'.toNat t = some (.error e, u) ∧ putchar '2'.toNat t = some (.error e, v)

/-- The first write that fails is in no hex directive or the rest of the run does no harm, and the least
`int` is not put out past its sign. -/
def StopsAtFailure : List Piece → σ → Prop
  | [], _ => True
  | .malformed :: _, _ => True
  | .text cs :: ps, s => ∀ t, fsPuts putchar cs s = some (.ok (), t) → StopsAtFailure ps t
  | .int num :: ps, s => (num = minInt → StopsAtSign putchar s) ∧
      ∀ t, fsPuts putchar (decimalText num) s = some (.ok (), t) → StopsAtFailure ps t
  | .hex num isUpper :: ps, s =>
      (∀ t, fsPuts putchar (hexText isUpper num) s = some (.ok (), t) → StopsAtFailure ps t) ∧
      ∀ e t, fsPuts putchar (hexText isUpper num) s = some (.error e, t) → Harmless putchar e ps t

variable {putchar}

theorem printed_eq_some {r : Option (Except ℕ Unit × σ × List ℕ)} {x : Except ℕ Unit} {l : List ℕ} :
    printed r = some (x, l) ↔ ∃ t, r = some (x, t, l) := by
  rw [printed, Option.map_eq_some_iff]
  constructor
  · rintro ⟨⟨x', t, m⟩, hr, h⟩
    cases h
    exact ⟨t, hr⟩
  · rintro ⟨t, hr⟩
    exact ⟨_, hr, rfl⟩

theorem not_written {α : Type} {m : Prog (σ × List ℕ) ℕ α} (hm : Prog.Keeps LogGrows m) {s t : σ}
    {c : ℕ} {l : List ℕ} {r : Except ℕ α} : m (s, l ++ [c]) ≠ some (r, t, l) := by
  intro h
  have hgrows : l ++ [c] <+: l := hm _ _ _ h
  exact absurd hgrows.length_le (by simp)

theorem fsPuts_cons_none {c : ℕ} {s : σ} (h : putchar c s = none) (cs l : List ℕ)
    (f : Unit → Prog (σ × List ℕ) ℕ Unit) :
    (fsPuts (logged putchar) (c :: cs) >>= f) (s, l) = none := by
  rw [fsPuts, Prog.forEach, bind_assoc, Prog.bind_none (logged_none h l)]

theorem fsPuts_cons_error {c e : ℕ} {s t : σ} (h : putchar c s = some (.error e, t))
    (cs l : List ℕ) (f : Unit → Prog (σ × List ℕ) ℕ Unit) :
    (fsPuts (logged putchar) (c :: cs) >>= f) (s, l) = some (.error e, t, l) := by
  rw [fsPuts, Prog.forEach, bind_assoc, Prog.bind_error (logged_error h l)]

theorem fsPuts_cons_ok {c : ℕ} {s t : σ} (h : putchar c s = some (.ok (), t)) (cs l : List ℕ)
    (f : Unit → Prog (σ × List ℕ) ℕ Unit) :
    (fsPuts (logged putchar) (c :: cs) >>= f) (s, l) =
      (fsPuts (logged putchar) cs >>= f) (t, l ++ [c]) := by
  rw [fsPuts, Prog.forEach, bind_assoc, Prog.bind_ok (logged_ok h l)]
  rfl

/-- The first character decides whether a text is what ends the run with nothing written. -/
theorem fsPuts_silent {c : ℕ} (cs : List ℕ) {f : Unit → Prog (σ × List ℕ) ℕ Unit}
    (hf : Prog.Keeps LogGrows (f ())) {s : σ} {l : List ℕ} {e : ℕ} :
    printed ((fsPuts (logged putchar) (c :: cs) >>= f) (s, l)) = some (.error e, l) ↔
      ∃ t, putchar c s = some (.error e, t) := by
  rw [printed_eq_some]
  rcases hc : putchar c s with _ | ⟨e' | u, v⟩
  · rw [fsPuts_cons_none hc]
    simp
  · rw [fsPuts_cons_error hc]
    simp
  · rw [fsPuts_cons_ok hc]
    refine iff_of_false ?_ (by simp)
    rintro ⟨t, h⟩
    exact not_written ((fsPuts_grows cs).bind fun _ => hf) h

theorem fsPuthex_silent {c : ℕ} {cs : List ℕ} {num : CUint} {isUpper : Bool}
    (hcs : hexText isUpper num = c :: cs) {f : Unit → Prog (σ × List ℕ) ℕ Unit}
    (hf : Prog.Keeps LogGrows (f ())) {s : σ} {l : List ℕ} {e : ℕ} :
    printed ((fsPuthex (logged putchar) num isUpper >>= f) (s, l)) = some (.error e, l) ↔
      ∃ e' t, putchar c s = some (.error e', t) ∧ printed (f () (t, l)) = some (.error e, l) := by
  rw [fsPuthex_eq, hcs, fsPuts, Prog.forEach, bind_assoc]
  rcases hc : putchar c s with _ | ⟨e' | u, v⟩
  · rw [Prog.bind_none (by rw [Prog.attempt, Prog.bind_none (logged_none hc l)])]
    simp [printed]
  · rw [Prog.bind_ok (Prog.attempt_run (Prog.bind_error (logged_error hc l)))]
    simp
  · refine iff_of_false ?_ (by simp)
    rw [printed_eq_some]
    rintro ⟨t, h⟩
    have hfirst : Prog.attempt (logged putchar c >>= fun _ => Prog.forEach (logged putchar) cs) (s, l) =
        Prog.attempt (fsPuts (logged putchar) cs) (v, l ++ [c]) := by
      rw [Prog.attempt, Prog.bind_ok (logged_ok hc l)]
      rfl
    have hrest : Prog.Keeps LogGrows
        (Prog.attempt (fsPuts (logged putchar) cs) >>= fun _ => pure () >>= f) :=
      (fsPuts_grows cs).attempt.bind fun _ => hf
    refine not_written (s := v) (c := c) hrest (Eq.trans ?_ h)
    change Prog.andThen _ _ _ = Prog.andThen _ _ _
    rw [Prog.andThen, Prog.andThen, hfirst]

theorem natText_ne_nil (n : ℕ) : natText n ≠ [] := by
  obtain ⟨digits, hne, -, -, htext, -⟩ := natText_digits n
  rw [htext]
  exact List.map_eq_nil_iff.not.mpr hne

theorem intText_ne_nil (num : CInt) : intText num ≠ [] := by
  rw [intText]
  by_cases hmin : num = minInt
  · rw [if_pos hmin]
    decide
  · rw [if_neg hmin, decimalText]
    split
    · exact List.cons_ne_nil _ _
    · exact natText_ne_nil _

theorem hexText_ne_nil (isUpper : Bool) (num : ℕ) : hexText isUpper num ≠ [] := by
  rw [hexText]
  by_cases hzero : num = 0
  · rw [if_pos hzero]
    exact List.cons_ne_nil _ _
  · rw [if_neg hzero, placesText_of_ne_zero (by decide) hzero]
    exact List.append_ne_nil_of_right_ne_nil _ (List.cons_ne_nil _ _)

theorem harmless_iff (ps : List Piece) (s : σ) (l : List ℕ) (e : ℕ) :
    printed (Prog.forEach (Piece.put (logged putchar)) ps (s, l)) = some (.error e, l) ↔
      Harmless putchar e ps s := by
  induction ps generalizing s with
  | nil => simp [Prog.forEach, printed, Harmless]
  | cons piece ps ih =>
    have hgrow := @pieces_grow σ putchar ps
    cases piece with
    | text chars =>
      cases chars with
      | nil => exact ih s
      | cons c cs => exact fsPuts_silent cs hgrow
    | int num =>
      obtain ⟨c, cs, hcs⟩ := List.exists_cons_of_ne_nil (intText_ne_nil num)
      rw [Prog.forEach, Piece.put, fsPutint_text, hcs, Harmless, hcs]
      simpa using fsPuts_silent cs hgrow
    | hex num isUpper =>
      obtain ⟨c, cs, hcs⟩ := List.exists_cons_of_ne_nil (hexText_ne_nil isUpper num)
      rw [Prog.forEach, Piece.put, fsPuthex_silent hcs hgrow, Harmless, hcs]
      simp only [ih, List.head?_cons, Option.mem_def, Option.some.injEq, exists_eq_left']
    | malformed =>
      rw [Prog.forEach, Piece.put, Harmless]
      simp [printed, eq_comm]

theorem printPieces_grow (ps : List Piece) :
    Prog.Keeps LogGrows (printPieces (logged putchar) ps) := by
  refine Prog.Keeps.forEach (fun piece => ?_) ps
  cases piece with
  | malformed => exact Prog.Keeps.throw errorUnknownFormat
  | _ => exact fsPuts_grows _

theorem fsPuts_bind_eq_iff (cs : List ℕ) {f g : Unit → Prog (σ × List ℕ) ℕ Unit} (s : σ)
    (l : List ℕ) :
    printed ((fsPuts (logged putchar) cs >>= f) (s, l)) =
        printed ((fsPuts (logged putchar) cs >>= g) (s, l)) ↔
      ∀ t, fsPuts putchar cs s = some (.ok (), t) →
        printed (f () (t, l ++ cs)) = printed (g () (t, l ++ cs)) := by
  have hlogged := @fsPuts_logged σ putchar cs s l
  rcases hcs : fsPuts putchar cs s with _ | ⟨e | u, t⟩
  · rw [hcs] at hlogged
    rw [Prog.bind_none hlogged, Prog.bind_none hlogged]
    simp
  · rw [hcs] at hlogged
    obtain ⟨m, hm⟩ := hlogged
    rw [Prog.bind_error hm, Prog.bind_error hm]
    simp
  · rw [hcs] at hlogged
    rw [Prog.bind_ok hlogged, Prog.bind_ok hlogged]
    simp

theorem fsPuthex_bind_eq_iff (num : CUint) (isUpper : Bool) (ps : List Piece)
    {g : Unit → Prog (σ × List ℕ) ℕ Unit} (s : σ) (l : List ℕ) :
    printed ((fsPuthex (logged putchar) num isUpper >>= fun _ =>
          Prog.forEach (Piece.put (logged putchar)) ps) (s, l)) =
        printed ((fsPuts (logged putchar) (hexText isUpper num) >>= g) (s, l)) ↔
      (∀ t, fsPuts putchar (hexText isUpper num) s = some (.ok (), t) →
        printed (Prog.forEach (Piece.put (logged putchar)) ps (t, l ++ hexText isUpper num)) =
          printed (g () (t, l ++ hexText isUpper num))) ∧
      ∀ e t, fsPuts putchar (hexText isUpper num) s = some (.error e, t) →
        Harmless putchar e ps t := by
  have hlogged := @fsPuts_logged σ putchar (hexText isUpper num) s l
  rw [fsPuthex_eq]
  rcases hcs : fsPuts putchar (hexText isUpper num) s with _ | ⟨e | u, t⟩
  · rw [hcs] at hlogged
    rw [Prog.bind_none hlogged, bind_assoc, Prog.bind_none (by rw [Prog.attempt, hlogged])]
    simp
  · rw [hcs] at hlogged
    obtain ⟨m, hm⟩ := hlogged
    rw [Prog.bind_error hm, bind_assoc, Prog.bind_ok (Prog.attempt_run hm)]
    have hharm := @harmless_iff σ putchar ps t m e
    simpa [printed] using hharm
  · rw [hcs] at hlogged
    rw [Prog.bind_ok hlogged, bind_assoc, Prog.bind_ok (Prog.attempt_run hlogged)]
    simp

theorem fsPuts_bind_returns {cs : List ℕ} {f : Unit → Prog σ ℕ Unit}
    {g : Unit → Prog (σ × List ℕ) ℕ Unit} {s : σ} (h : ((fsPuts putchar cs >>= f) s).isSome)
    (hfg : ∀ t l, (f () t).isSome → (g () (t, l)).isSome) (l : List ℕ) :
    ((fsPuts (logged putchar) cs >>= g) (s, l)).isSome := by
  have hlogged := @fsPuts_logged σ putchar cs s l
  rcases hcs : fsPuts putchar cs s with _ | ⟨e | u, t⟩
  · rw [Prog.bind_none hcs] at h
    cases h
  · rw [hcs] at hlogged
    obtain ⟨m, hm⟩ := hlogged
    rw [Prog.bind_error hm]
    rfl
  · rw [hcs] at hlogged
    rw [Prog.bind_ok hcs] at h
    rw [Prog.bind_ok hlogged]
    exact hfg t _ h

theorem printPieces_returns {ps : List Piece} {s : σ} (h : (printPieces putchar ps s).isSome)
    (l : List ℕ) : (printPieces (logged putchar) ps (s, l)).isSome := by
  induction ps generalizing s l with
  | nil => rfl
  | cons piece ps ih =>
    cases piece with
    | malformed => rfl
    | _ => exact fsPuts_bind_returns h (fun t l ht => ih ht l) l

theorem StopsAtSign.not_ok {s t : σ} (h : StopsAtSign putchar s) :
    fsPuts putchar (decimalText minInt) s ≠ some (.ok (), t) := by
  intro hrun
  obtain ⟨text, htext⟩ : ∃ cs, decimalText minInt = '-'.toNat :: '2'.toNat :: cs :=
    ⟨(decimalText minInt).drop 2, by decide⟩
  rw [htext] at hrun
  obtain ⟨_, u, hsign, hrun⟩ := Prog.bind_ok_cases hrun
  obtain ⟨_, v, htwo, -⟩ := Prog.bind_ok_cases hrun
  obtain ⟨e, x, y, -, hfail⟩ := h u hsign
  rw [hfail] at htwo
  cases htwo

/-- The text of the least `int` and what the code puts out for it part after the sign. -/
theorem fsPuts_minInt_eq_iff {f g : Unit → Prog (σ × List ℕ) ℕ Unit} (hf : Prog.Keeps LogGrows (f ()))
    (hg : Prog.Keeps LogGrows (g ())) (s : σ) (l : List ℕ)
    (hret : ((fsPuts (logged putchar) (decimalText minInt) >>= g) (s, l)).isSome) :
    printed ((fsPuts (logged putchar) minIntText >>= f) (s, l)) =
        printed ((fsPuts (logged putchar) (decimalText minInt) >>= g) (s, l)) ↔
      StopsAtSign putchar s := by
  obtain ⟨code, hcode⟩ : ∃ cs, minIntText = '-'.toNat :: '.'.toNat :: cs := ⟨_, rfl⟩
  obtain ⟨text, htext⟩ : ∃ cs, decimalText minInt = '-'.toNat :: '2'.toNat :: cs :=
    ⟨(decimalText minInt).drop 2, by decide⟩
  rw [htext] at hret ⊢
  rw [hcode, StopsAtSign]
  rcases hsign : putchar '-'.toNat s with _ | ⟨e | u, t⟩
  · rw [fsPuts_cons_none hsign, fsPuts_cons_none hsign]
    simp
  · rw [fsPuts_cons_error hsign, fsPuts_cons_error hsign]
    simp
  rw [fsPuts_cons_ok hsign] at hret
  rw [fsPuts_cons_ok hsign, fsPuts_cons_ok hsign]
  rcases htwo : putchar '2'.toNat t with _ | ⟨e | u', v⟩
  · rw [fsPuts_cons_none htwo] at hret
    cases hret
  · rw [fsPuts_cons_error htwo, show printed (some (.error e, v, l ++ ['-'.toNat])) =
      some (.error e, l ++ ['-'.toNat]) from rfl, fsPuts_silent code hf]
    constructor
    · rintro ⟨w, hdot⟩ x hx
      cases hx
      exact ⟨e, w, v, hdot, htwo⟩
    · intro h
      obtain ⟨e', w, x, hdot, htwo'⟩ := h t rfl
      rw [htwo] at htwo'
      cases htwo'
      exact ⟨w, hdot⟩
  · rw [fsPuts_cons_ok htwo] at hret ⊢
    obtain ⟨⟨r, w, m⟩, hrun⟩ := Option.isSome_iff_exists.mp hret
    have htwo' : l ++ ['-'.toNat] ++ ['2'.toNat] <+: m :=
      (fsPuts_grows text).bind (fun _ => hg) _ _ _ hrun
    refine iff_of_false (fun h => ?_) (fun h => ?_)
    · rw [hrun] at h
      obtain ⟨x, hx⟩ := printed_eq_some.mp h
      rcases hdot : putchar '.'.toNat t with _ | ⟨e | u'', z⟩
      · rw [fsPuts_cons_none hdot] at hx
        cases hx
      · rw [fsPuts_cons_error hdot] at hx
        cases hx
        exact absurd htwo'.length_le (by simp)
      · rw [fsPuts_cons_ok hdot] at hx
        have hdot' : l ++ ['-'.toNat] ++ ['.'.toNat] <+: m :=
          (fsPuts_grows code).bind (fun _ => hf) _ _ _ hx
        have hsame := List.prefix_of_prefix_length_le hdot' htwo' (by simp)
        exact absurd (hsame.eq_of_length (by simp)) (by simp)
    · obtain ⟨e, u, v, -, h2⟩ := h t rfl
      rw [htwo] at h2
      cases h2

theorem printf_iff {ps : List Piece} {s : σ} (hret : (printPieces putchar ps s).isSome) (l : List ℕ) :
    printed (Prog.forEach (Piece.put (logged putchar)) ps (s, l)) =
      printed (printPieces (logged putchar) ps (s, l)) ↔ StopsAtFailure putchar ps s := by
  induction ps generalizing s l with
  | nil => simp [Prog.forEach, printPieces, StopsAtFailure]
  | cons piece ps ih =>
    have hrest (cs : List ℕ) (t : σ) (hcs : piece.print putchar = fsPuts putchar cs)
        (ht : fsPuts putchar cs s = some (.ok (), t)) : (printPieces putchar ps t).isSome := by
      rw [printPieces, Prog.forEach, hcs, Prog.bind_ok ht] at hret
      exact hret
    cases piece with
    | malformed => simp [Prog.forEach, printPieces, StopsAtFailure, Piece.put, Piece.print]
    | text chars =>
      refine (fsPuts_bind_eq_iff chars s l).trans ?_
      exact forall₂_congr fun t ht => ih (hrest chars t rfl ht) _
    | int num =>
      rw [StopsAtFailure, Prog.forEach, Piece.put, fsPutint_text, intText]
      by_cases hmin : num = minInt
      · subst hmin
        rw [if_pos rfl]
        have hsign := fsPuts_minInt_eq_iff (f := fun _ => Prog.forEach (Piece.put (logged putchar)) ps)
          (g := fun _ => printPieces (logged putchar) ps) (pieces_grow ps) (printPieces_grow ps) s l
          (printPieces_returns hret l)
        refine hsign.trans ⟨fun h => ⟨fun _ => h, fun t ht => ?_⟩, fun h => h.1 rfl⟩
        exact absurd ht h.not_ok
      · rw [if_neg hmin]
        refine (fsPuts_bind_eq_iff _ s l).trans ?_
        rw [and_iff_right fun e => absurd e hmin]
        exact forall₂_congr fun t ht => ih (hrest _ t rfl ht) _
    | hex num isUpper =>
      refine (fsPuthex_bind_eq_iff num isUpper ps s l).trans ?_
      exact and_congr_left fun _ => forall₂_congr fun t ht => ih (hrest _ t rfl ht) _

end Written

section Record

variable {σ α β : Type}

/-- `m'` is `m` with a record that it only adds to. -/
def Forgets (m' : Prog (σ × List ℕ) ℕ α) (m : Prog σ ℕ α) : Prop :=
  ∀ s l, (m' (s, l)).map (fun p => (p.1, p.2.1)) = m s

namespace Forgets

theorem pure (a : α) : Forgets (Pure.pure a : Prog (σ × List ℕ) ℕ α) (Pure.pure a) := fun _ _ => rfl

theorem throw (e : ℕ) : Forgets (Prog.throw e : Prog (σ × List ℕ) ℕ α) (Prog.throw e) :=
  fun _ _ => rfl

theorem bind {m' : Prog (σ × List ℕ) ℕ α} {m : Prog σ ℕ α} {f' : α → Prog (σ × List ℕ) ℕ β}
    {f : α → Prog σ ℕ β} (hm : Forgets m' m) (hf : ∀ a, Forgets (f' a) (f a)) :
    Forgets (m' >>= f') (m >>= f) := by
  intro s l
  have hrun := hm s l
  rcases h : m' (s, l) with _ | ⟨e | a, t, k⟩ <;> rw [h] at hrun
  · rw [Prog.bind_none h, Prog.bind_none hrun.symm]
    rfl
  · rw [Prog.bind_error h, Prog.bind_error hrun.symm]
    rfl
  · rw [Prog.bind_ok h, Prog.bind_ok hrun.symm]
    exact hf a t k

theorem attempt {m' : Prog (σ × List ℕ) ℕ α} {m : Prog σ ℕ α} (hm : Forgets m' m) :
    Forgets (Prog.attempt m') (Prog.attempt m) := by
  intro s l
  have hrun := hm s l
  rcases h : m' (s, l) with _ | ⟨r, t, k⟩ <;> rw [h] at hrun
  · rw [Prog.attempt, h, Prog.attempt, ← hrun]
    rfl
  · rw [Prog.attempt_run h, Prog.attempt_run hrun.symm]
    rfl

theorem forEach {f' : α → Prog (σ × List ℕ) ℕ Unit} {f : α → Prog σ ℕ Unit}
    (hf : ∀ a, Forgets (f' a) (f a)) (as : List α) :
    Forgets (Prog.forEach f' as) (Prog.forEach f as) := by
  induction as with
  | nil => exact pure ()
  | cons a as ih => exact (hf a).bind fun _ => ih

theorem logged (putchar : ℕ → Prog σ ℕ Unit) (c : ℕ) : Forgets (logged putchar c) (putchar c) := by
  intro s l
  rcases h : putchar c s with _ | ⟨e | u, t⟩
  · rw [logged_none h]
    rfl
  · rw [logged_error h]
    rfl
  · rw [logged_ok h]
    rfl

theorem pieces (putchar : ℕ → Prog σ ℕ Unit) (ps : List Piece) :
    Forgets (Prog.forEach (Piece.put (Fs.logged putchar)) ps)
      (Prog.forEach (Piece.put putchar) ps) := by
  refine forEach (fun piece => ?_) ps
  cases piece with
  | text chars => exact forEach (logged putchar) chars
  | int num =>
    rw [Piece.put, Piece.put, fsPutint_text, fsPutint_text]
    exact forEach (logged putchar) _
  | hex num isUpper =>
    rw [Piece.put, Piece.put, fsPuthex_eq, fsPuthex_eq]
    exact (forEach (logged putchar) _).attempt.bind fun _ => pure ()
  | malformed => exact throw errorUnknownFormat

end Forgets

end Record

section Expanded

/-- `fs_printf` returns what the writes of the expansion give, and writes what they write. -/
def PrintsExpansion (env : FsEnv) (fp : ℕ) (format : List ℕ) (args : List Arg) (ps : List Piece)
    (s : FsSys) : Prop :=
  ∃ r t written, fsPrintf env fp format args s = some (r, t) ∧
    printed (fsPrintfArgList (logged (fsPutchar env fp)) format args (s, [])) = some (r, written) ∧
    printed (printPieces (logged (fsPutchar env fp)) ps (s, [])) = some (r, written)

theorem fsPrintf_stops_iff {env : FsEnv} {fp : ℕ} {format : List ℕ} (hnul : 0 ∉ format)
    {args : List Arg} {ps : List Piece} (hps : pieces format args = some ps) {s : FsSys}
    (hret : (printPieces (fsPutchar env fp) ps s).isSome) :
    PrintsExpansion env fp format args ps s ↔ StopsAtFailure (fsPutchar env fp) ps s := by
  rw [← printf_iff hret [], PrintsExpansion, fsPrintf, fsPrintfArgList_eq _ hnul hps,
    fsPrintfArgList_eq _ hnul hps]
  constructor
  · rintro ⟨r, t, written, -, hcode, hideal⟩
    rw [hcode, hideal]
  · intro h
    obtain ⟨⟨r, t, written⟩, hideal⟩ := Option.isSome_iff_exists.mp (printPieces_returns hret [])
    rw [hideal] at h
    obtain ⟨u, hcode⟩ := printed_eq_some.mp h
    have hforget := Forgets.pieces (fsPutchar env fp) ps s []
    rw [hcode] at hforget
    exact ⟨r, u, written, hforget.symm, congrArg printed hcode, congrArg printed hideal⟩

def formatOf (text : String) : List ℕ := text.toList.map Char.toNat

def openedFile : FsSys :=
  { smallFile with files := fun _ => ⟨4096, 3, 0, 0, some 1, 0, 0, false⟩ }

theorem fsPrintf_stops_small :
    PrintsExpansion soundEnv 0 (formatOf "a%d%q") [.int ⟨-5, by decide⟩]
      [.text [97], .int ⟨-5, by decide⟩, .malformed] openedFile := by
  have hret : (printPieces (fsPutchar soundEnv 0)
      [.text [97], .int ⟨-5, by decide⟩, .malformed] openedFile).isSome := by decide +kernel
  exact (fsPrintf_stops_iff (by decide) rfl hret).mpr
    fun t _ => ⟨fun h => absurd h (by decide), fun _ _ => trivial⟩

/-- On a file that is not open for writing the hex directive loses the error. -/
theorem fsPrintf_loses_error :
    pieces (formatOf "%x") [.uint ⟨1, by decide⟩] = some [.hex ⟨1, by decide⟩ false] ∧
      ¬ PrintsExpansion soundEnv 0 (formatOf "%x") [.uint ⟨1, by decide⟩]
        [.hex ⟨1, by decide⟩ false] blankSys := by
  refine ⟨rfl, ?_⟩
  rintro ⟨r, t, written, -, hcode, hideal⟩
  have hok : printed (fsPrintfArgList (logged (fsPutchar soundEnv 0)) (formatOf "%x")
      [.uint ⟨1, by decide⟩] (blankSys, [])) = some (.ok (), []) := by rfl
  have herror : printed (printPieces (logged (fsPutchar soundEnv 0)) [.hex ⟨1, by decide⟩ false]
      (blankSys, [])) = some (.error errorAccessAuthority, []) := by rfl
  rw [hok] at hcode
  rw [herror] at hideal
  cases hcode
  cases hideal

end Expanded

end OurOS.Fs
