import Mathlib.Data.List.TakeWhile
import OurOS.Usr.Command

namespace OurOS.Usr

def space : ℕ := ' '.toNat

def newline : ℕ := '\n'.toNat

section Tokens

def tokens (body : List ℕ) : List (List ℕ) := (body.splitOn space).filter (· ≠ [])

def isShort (token : List ℕ) : Bool := token.length < maxArgumentLength

def commandOf (ts : List (List ℕ)) : Command := ⟨ts.headD [], ts.tail⟩

variable {token rest : List ℕ}

theorem splitOn_of_not_mem (h : space ∉ token) : token.splitOn space = [token] := by
  refine List.splitOnP_eq_singleton fun x hx => ?_
  simpa using fun e : x = space => h (e ▸ hx)

theorem tokens_word (h : space ∉ token) (hne : token ≠ []) : tokens token = [token] := by
  rw [tokens, splitOn_of_not_mem h]
  simp [hne]

theorem splitOn_append_space (h : space ∉ token) (rest : List ℕ) :
    (token ++ space :: rest).splitOn space = token :: rest.splitOn space :=
  List.splitOnP_append_cons_of_forall_mem
    (fun x hx => by simpa using fun e : x = space => h (e ▸ hx)) space (by simp) rest

theorem tokens_append_space (h : space ∉ token) (hne : token ≠ []) (rest : List ℕ) :
    tokens (token ++ space :: rest) = token :: tokens rest := by
  rw [tokens, splitOn_append_space h]
  simp [hne, tokens]

theorem tokens_space (rest : List ℕ) : tokens (space :: rest) = tokens rest := by
  rw [tokens, show space :: rest = [] ++ space :: rest from rfl, splitOn_append_space (by simp)]
  rfl

theorem tokens_append (h : space ∉ token) (hne : token ≠ []) (rest : List ℕ) :
    ∃ more ts, tokens (token ++ rest) = (token ++ more) :: ts := by
  induction rest generalizing token with
  | nil => exact ⟨[], [], by rw [List.append_nil, tokens_word h hne]⟩
  | cons c rest ih =>
    by_cases hc : c = space
    · exact ⟨[], tokens rest, by rw [hc, List.append_nil, tokens_append_space h hne]⟩
    · have hmem : space ∉ token ++ [c] := by simp [h, Ne.symm hc]
      obtain ⟨more, ts, he⟩ := ih hmem (by simp)
      rw [List.append_assoc] at he
      exact ⟨c :: more, ts, by simpa using he⟩

end Tokens

section Loop

variable (alloc : ℕ → Bool)

/-- What the scanner makes of the tokens that are left when it has stored some. -/
def scanTokens : List (List ℕ) → List (List ℕ) → Option (Bool × Command)
  | stored, [] => some (false, commandOf stored)
  | stored, token :: ts =>
    if isShort token then
      if stored = [] ∨ alloc (1 + stored.length) then scanTokens (stored ++ [token]) ts else none
    else some (true, commandOf stored)

def statusOf (stored : List (List ℕ)) : ℕ := if stored = [] then 0 else 1

def scanAt (i : ℕ) (token : List ℕ) (stored : List (List ℕ)) : Scan :=
  ⟨i, token, statusOf stored, commandOf stored⟩

variable {alloc} {cmd : List ℕ} {c fuel : ℕ}

theorem parseLoop_char {s : Scan} (hc : (cmd ++ [0])[s.cmdIndex]? = some c)
    (hi : s.cmdIndex < maxCommandLength) (h0 : c ≠ 0) (hspace : c ≠ space) (hnl : c ≠ newline) :
    parseLoop alloc cmd (fuel + 1) s =
      if s.thisArgument.length < maxArgumentLength - 1 then
        parseLoop alloc cmd fuel
          { s with cmdIndex := s.cmdIndex + 1, thisArgument := s.thisArgument ++ [c] }
      else some (true, s.thisCmd) := by
  have hmore : c ≠ 0 ∧ s.cmdIndex < maxCommandLength := ⟨h0, hi⟩
  have hchar : c ≠ ' '.toNat ∧ c ≠ 0 ∧ c ≠ '\n'.toNat := ⟨hspace, h0, hnl⟩
  simp only [parseLoop, hc, if_pos hmore, if_pos hchar]

theorem parseLoop_space {s : Scan} (hc : (cmd ++ [0])[s.cmdIndex]? = some space)
    (hi : s.cmdIndex < maxCommandLength) (hnil : s.thisArgument = []) :
    parseLoop alloc cmd (fuel + 1) s =
      parseLoop alloc cmd fuel { s with cmdIndex := s.cmdIndex + 1 } := by
  have hmore : space ≠ 0 ∧ s.cmdIndex < maxCommandLength := ⟨by decide, hi⟩
  have hempty : ¬ s.thisArgument.length ≠ 0 := by simp [hnil]
  simp only [parseLoop, hc, if_pos hmore, if_neg hempty]
  rfl

theorem parseLoop_end {s : Scan} (hc : (cmd ++ [0])[s.cmdIndex]? = some newline)
    (hi : s.cmdIndex < maxCommandLength) (hnil : s.thisArgument = []) :
    parseLoop alloc cmd (fuel + 1) s = some (false, s.thisCmd) := by
  have hmore : newline ≠ 0 ∧ s.cmdIndex < maxCommandLength := ⟨by decide, hi⟩
  have hempty : ¬ s.thisArgument.length ≠ 0 := by simp [hnil]
  simp only [parseLoop, hc, if_pos hmore, if_neg hempty]
  rfl

theorem parseLoop_store {s : Scan} (hc : (cmd ++ [0])[s.cmdIndex]? = some c)
    (hi : s.cmdIndex < maxCommandLength) (hend : c = space ∨ c = newline)
    (hne : s.thisArgument ≠ []) :
    parseLoop alloc cmd (fuel + 1) s =
      match storeToken alloc s with
      | none => none
      | some s =>
        if c = newline then some (false, s.thisCmd)
        else parseLoop alloc cmd fuel { s with thisArgument := [] } := by
  have h0 : c ≠ 0 := by rcases hend with rfl | rfl <;> decide
  have hmore : c ≠ 0 ∧ s.cmdIndex < maxCommandLength := ⟨h0, hi⟩
  have hstop : ¬ (c ≠ ' '.toNat ∧ c ≠ 0 ∧ c ≠ '\n'.toNat) := fun h => hend.elim h.1 h.2.2
  have hlen : s.thisArgument.length ≠ 0 := fun h => hne (List.length_eq_zero_iff.mp h)
  have hnul : (c = 0 ∨ c = '\n'.toNat) = (c = newline) := by simp [h0, newline]
  cases hstore : storeToken alloc s with
  | none => simp only [parseLoop, hc, if_pos hmore, if_neg hstop, if_pos hlen, hstore]
  | some t => simp only [parseLoop, hc, if_pos hmore, if_neg hstop, if_pos hlen, hnul, hstore]

theorem storeToken_scanAt (i : ℕ) (token : List ℕ) (stored : List (List ℕ)) :
    storeToken alloc (scanAt i token stored) =
      if stored = [] ∨ alloc (1 + stored.length) then some (scanAt i token (stored ++ [token]))
      else none := by
  cases stored with
  | nil => rfl
  | cons first args =>
    have hcount : 1 + (first :: args).length = 2 + args.length := by
      rw [List.length_cons]
      omega
    have hstore : storeToken alloc (scanAt i token (first :: args)) =
        (newArg alloc (commandOf (first :: args)) token).map fun cmd =>
          { scanAt i token (first :: args) with thisCmd := cmd } := rfl
    have hnew : newArg alloc (commandOf (first :: args)) token =
        if alloc (2 + args.length) then some (commandOf (first :: args ++ [token])) else none := rfl
    simp only [hstore, hnew, hcount, List.cons_ne_nil, false_or]
    by_cases hnode : alloc (2 + args.length) = true
    · rw [if_pos hnode, if_pos hnode]
      rfl
    · rw [if_neg hnode, if_neg hnode]
      rfl

theorem parseLoop_token {i : ℕ} {token : List ℕ} {stored : List (List ℕ)}
    (hc : (cmd ++ [0])[i]? = some c) (hi : i < maxCommandLength) (hend : c = space ∨ c = newline)
    (hne : token ≠ []) :
    parseLoop alloc cmd (fuel + 1) (scanAt i token stored) =
      if stored = [] ∨ alloc (1 + stored.length) then
        if c = newline then some (false, commandOf (stored ++ [token]))
        else parseLoop alloc cmd fuel (scanAt i [] (stored ++ [token]))
      else none := by
  have hstore := @parseLoop_store alloc cmd c fuel (scanAt i token stored) hc hi hend hne
  rw [hstore, storeToken_scanAt]
  by_cases hstored : stored = [] ∨ alloc (1 + stored.length) = true
  · rw [if_pos hstored, if_pos hstored]
    rfl
  · rw [if_neg hstored, if_neg hstored]

theorem parseLoop_scanAt (rest : List ℕ) : ∀ {pre token : List ℕ} {stored : List (List ℕ)}
    {fuel : ℕ}, (pre ++ rest).length < maxCommandLength → 0 ∉ rest → newline ∉ rest →
    space ∉ token → isShort token → 2 * rest.length + 1 ≤ fuel →
    parseLoop alloc (pre ++ rest ++ [newline]) fuel (scanAt pre.length token stored) =
      scanTokens alloc stored (tokens (token ++ rest)) := by
  induction rest with
  | nil =>
    intro pre token stored fuel hlen _ _ hspace hshort hfuel
    obtain ⟨fuel, rfl⟩ : ∃ k, fuel = k + 1 := ⟨fuel - 1, by simp at hfuel; omega⟩
    have hi : pre.length < maxCommandLength := by rwa [List.append_nil] at hlen
    have hc : ((pre ++ [] ++ [newline]) ++ [0])[pre.length]? = some newline := by simp
    rw [List.append_nil token]
    by_cases hnil : token = []
    · rw [@parseLoop_end _ _ _ (scanAt pre.length token stored) hc hi hnil, hnil]
      rfl
    · rw [parseLoop_token hc hi (.inr rfl) hnil, if_pos rfl, tokens_word hspace hnil, scanTokens,
        if_pos hshort]
      rfl
  | cons c rest ih =>
    intro pre token stored fuel hlen h0 hnl hspace hshort hfuel
    obtain ⟨fuel, rfl⟩ : ∃ k, fuel = k + 2 := ⟨fuel - 2, by simp at hfuel; omega⟩
    have hfuel' : 2 * rest.length + 1 ≤ fuel := by simp at hfuel; omega
    have hi : pre.length < maxCommandLength := by
      rw [List.length_append, List.length_cons] at hlen
      omega
    have hc : ((pre ++ c :: rest ++ [newline]) ++ [0])[pre.length]? = some c := by simp
    have hnext : pre ++ c :: rest = pre ++ [c] ++ rest := by simp
    have hpre : pre.length + 1 = (pre ++ [c]).length := by simp
    have hlen' : (pre ++ [c] ++ rest).length < maxCommandLength := hnext ▸ hlen
    have h0' : 0 ∉ rest := fun h => h0 (List.mem_cons_of_mem c h)
    have hnl' : newline ∉ rest := fun h => hnl (List.mem_cons_of_mem c h)
    by_cases hs : c = space
    · subst hs
      -- the next run of the loop skips the space, once the token before it is stored
      have hskip (stored : List (List ℕ)) (fuel : ℕ) (hf : 2 * rest.length + 1 ≤ fuel) :
          parseLoop alloc (pre ++ space :: rest ++ [newline]) (fuel + 1)
            (scanAt pre.length [] stored) = scanTokens alloc stored (tokens rest) := by
        rw [@parseLoop_space _ _ _ (scanAt pre.length [] stored) hc hi rfl]
        change parseLoop alloc _ fuel (scanAt (pre.length + 1) [] stored) = _
        rw [hnext, hpre]
        exact ih hlen' h0' hnl' (by simp) rfl hf
      by_cases hnil : token = []
      · subst hnil
        rw [hskip stored (fuel + 1) (by omega), List.nil_append, tokens_space]
      · have hgo : ¬ space = newline := by decide
        rw [parseLoop_token hc hi (.inl rfl) hnil, if_neg hgo,
          hskip (stored ++ [token]) fuel hfuel', tokens_append_space hspace hnil, scanTokens,
          if_pos hshort]
    · have hc0 : c ≠ 0 := fun h => h0 (h ▸ List.mem_cons_self)
      have hcnl : c ≠ newline := fun h => hnl (h ▸ List.mem_cons_self)
      have hmem : space ∉ token ++ [c] := by simp [hspace, Ne.symm hs]
      have htokens : token ++ c :: rest = token ++ [c] ++ rest := by simp
      rw [@parseLoop_char _ _ _ _ (scanAt pre.length token stored) hc hi hc0 hs hcnl, htokens]
      split_ifs with hroom
      · change parseLoop alloc _ (fuel + 1) (scanAt (pre.length + 1) (token ++ [c]) stored) = _
        rw [hnext, hpre]
        refine ih hlen' h0' hnl' hmem ?_ (by omega)
        have hroom' : token.length < maxArgumentLength - 1 := hroom
        simp only [isShort, List.length_append, List.length_singleton, decide_eq_true_eq]
        omega
      · obtain ⟨more, ts, he⟩ := tokens_append hmem (by simp) rest
        have hover : ¬ isShort (token ++ [c] ++ more) = true := by
          have hroom' : ¬ token.length < maxArgumentLength - 1 := hroom
          simp only [isShort, List.length_append, List.length_singleton, decide_eq_true_eq]
          omega
        rw [he, scanTokens, if_neg hover]
        rfl

theorem parseCmd_eq {body : List ℕ} (hlen : (body ++ [newline]).length ≤ maxCommandLength - 1)
    (h0 : 0 ∉ body) (hnl : newline ∉ body) :
    parseCmd alloc (body ++ [newline]) =
      if alloc 0 ∧ alloc 1 then scanTokens alloc [] (tokens body) else none := by
  have hbody : ([] ++ body).length < maxCommandLength := by
    rw [List.length_append] at hlen
    have : maxCommandLength = 64 := rfl
    simp at hlen ⊢
    omega
  have hscan : parseLoop alloc (body ++ [newline]) (2 * (body ++ [newline]).length + 2)
      (scanAt 0 [] []) = scanTokens alloc [] (tokens body) :=
    parseLoop_scanAt body hbody h0 hnl (by simp) rfl (by simp; omega)
  rw [parseCmd]
  exact if_congr Iff.rfl hscan rfl

end Loop

section Stored

variable (alloc : ℕ → Bool)

/-- The command itself, the node `arg_list` points to and a node for each argument that is stored. -/
structure Allocates (ts : List (List ℕ)) : Prop where
  command : alloc 0
  head : alloc 1
  nodes : ∀ k < (ts.takeWhile isShort).length, alloc (1 + k)

variable {alloc} {ts : List (List ℕ)}

theorem scanTokens_eq (stored : List (List ℕ)) :
    scanTokens alloc stored ts =
      if ∀ k ∈ List.range' stored.length (ts.takeWhile isShort).length, k = 0 ∨ alloc (1 + k) then
        some (!ts.all isShort, commandOf (stored ++ ts.takeWhile isShort))
      else none := by
  induction ts generalizing stored with
  | nil => simp [scanTokens]
  | cons token ts ih =>
    rw [scanTokens]
    by_cases hshort : isShort token = true
    · have hfirst : (stored = [] ∨ alloc (1 + stored.length) = true) ↔
          (stored.length = 0 ∨ alloc (1 + stored.length) = true) := by
        rw [List.length_eq_zero_iff]
      have hlen : (stored ++ [token]).length = stored.length + 1 := by simp
      simp only [ih, hfirst, hlen, List.takeWhile_cons_of_pos hshort,
        List.length_cons, List.range'_succ, List.forall_mem_cons, List.all_cons, hshort,
        Bool.true_and, List.append_assoc, List.singleton_append, if_true]
      by_cases hnode : stored.length = 0 ∨ alloc (1 + stored.length) = true
      · simp only [hnode, true_and, if_true]
      · simp only [hnode, false_and, if_false]
    · simp [hshort]

theorem allocates_iff :
    Allocates alloc ts ↔ (alloc 0 ∧ alloc 1) ∧
      ∀ k ∈ List.range' 0 (ts.takeWhile isShort).length, k = 0 ∨ alloc (1 + k) := by
  constructor
  · rintro ⟨hcommand, hhead, hnodes⟩
    refine ⟨⟨hcommand, hhead⟩, fun k hk => .inr (hnodes k ?_)⟩
    simpa using hk
  · rintro ⟨⟨hcommand, hhead⟩, hnodes⟩
    refine ⟨hcommand, hhead, fun k hk => ?_⟩
    rcases hnodes k (by simpa using hk) with rfl | halloc
    · exact hhead
    · exact halloc

theorem parseCmd_eq_some_iff {body : List ℕ}
    (hlen : (body ++ [newline]).length ≤ maxCommandLength - 1) (h0 : 0 ∉ body)
    (hnl : newline ∉ body) (result : Bool × Command) :
    parseCmd alloc (body ++ [newline]) = some result ↔
      Allocates alloc (tokens body) ∧
        result = (!(tokens body).all isShort, commandOf ((tokens body).takeWhile isShort)) := by
  rw [parseCmd_eq hlen h0 hnl, scanTokens_eq]
  split_ifs with hfront hnodes
  · have hall : Allocates alloc (tokens body) := allocates_iff.mpr ⟨hfront, hnodes⟩
    exact ⟨fun h => ⟨hall, (Option.some.inj h).symm⟩, fun h => congrArg some h.2.symm⟩
  · exact iff_of_false (fun h => nomatch h) fun h => hnodes (allocates_iff.mp h.1).2
  · exact iff_of_false (fun h => nomatch h) fun h => hfront (allocates_iff.mp h.1).1

end Stored

section Claim

variable (alloc : ℕ → Bool) (body : List ℕ)

/-- The line executes its command, or is reported as having too long a token and executes none. -/
def ExecutesLine : Prop :=
  ∃ reported cmd, parseCmd alloc (body ++ [newline]) = some (reported, cmd) ∧
    if (tokens body).all isShort then reported = false ∧ cmd = commandOf (tokens body)
    else reported = true ∧ execCmd cmd = some .nothing

variable {alloc body}

theorem takeWhile_isShort_eq_nil_iff {ts : List (List ℕ)} (h : ¬ ts.all isShort) :
    ts.takeWhile isShort = [] ↔ ¬ isShort (ts.headD []) := by
  cases ts with
  | nil => simp at h
  | cons token ts => by_cases hshort : isShort token <;> simp [hshort]

theorem takeWhile_head_ne_nil {ts : List (List ℕ)} (hne : [] ∉ ts) :
    (commandOf (ts.takeWhile isShort)).cmdName = [] ↔ ts.takeWhile isShort = [] := by
  cases ts with
  | nil => exact iff_of_true rfl rfl
  | cons token ts =>
    have htoken : token ≠ [] := fun h => hne (h ▸ List.mem_cons_self)
    by_cases hshort : isShort token <;> simp [hshort, commandOf, htoken]

theorem executesLine_iff (hlen : (body ++ [newline]).length ≤ maxCommandLength - 1)
    (h0 : 0 ∉ body) (hnl : newline ∉ body) :
    ExecutesLine alloc body ↔ Allocates alloc (tokens body) ∧
      ((tokens body).all isShort ∨ ¬ isShort ((tokens body).headD [])) := by
  have hne : [] ∉ tokens body := fun h => by simp [tokens] at h
  have hparse (result : Bool × Command) : parseCmd alloc (body ++ [newline]) = some result ↔
      Allocates alloc (tokens body) ∧
        result = (!(tokens body).all isShort, commandOf ((tokens body).takeWhile isShort)) :=
    parseCmd_eq_some_iff hlen h0 hnl result
  constructor
  · rintro ⟨reported, cmd, hsome, hline⟩
    obtain ⟨halloc, hresult⟩ := (hparse _).mp hsome
    refine ⟨halloc, or_iff_not_imp_left.mpr fun hlong => ?_⟩
    rw [if_neg hlong, (Prod.mk.inj hresult).2, execCmd_eq_nothing_iff, takeWhile_head_ne_nil hne,
      takeWhile_isShort_eq_nil_iff hlong] at hline
    exact hline.2
  · rintro ⟨halloc, hshort⟩
    refine ⟨_, _, (hparse _).mpr ⟨halloc, rfl⟩, ?_⟩
    by_cases hall : (tokens body).all isShort = true
    · have htake : (tokens body).takeWhile isShort = tokens body :=
        List.takeWhile_eq_self_iff.mpr (List.all_eq_true.mp hall)
      rw [if_pos hall, hall, htake]
      exact ⟨rfl, rfl⟩
    · rw [if_neg hall, execCmd_eq_nothing_iff, takeWhile_head_ne_nil hne,
        takeWhile_isShort_eq_nil_iff hall]
      exact ⟨by simp [hall], hshort.resolve_left hall⟩

theorem executesLine_small : ExecutesLine (fun _ => true) (nameOf " cat  notes ") :=
  (executesLine_iff (by decide) (by decide) (by decide)).mpr
    ⟨⟨rfl, rfl, fun _ _ => rfl⟩, .inl (by decide +kernel)⟩

theorem not_executesLine : ¬ ExecutesLine (fun _ => true) (nameOf "rm abc abcdefgh") := by
  rintro ⟨reported, cmd, hsome, hline⟩
  have hparse : parseCmd (fun _ => true) (nameOf "rm abc abcdefgh" ++ [newline]) =
      some (true, ⟨nameOf "rm", [nameOf "abc"]⟩) := by decide +kernel
  have hlong : ¬ (tokens (nameOf "rm abc abcdefgh")).all isShort := by decide +kernel
  obtain ⟨-, rfl⟩ := Prod.mk.inj (Option.some.inj (hsome.symm.trans hparse))
  rw [if_neg hlong] at hline
  exact absurd hline.2 (by decide)

end Claim

end OurOS.Usr
