import OurOS.Fs.NameOrder

namespace OurOS.Fs

def padded (n : ℕ) (part : List ℕ) : List ℕ :=
  part ++ List.replicate (n - part.length) dummyChar8dot3

def nameField (base ext : List ℕ) : List ℕ := padded 8 base ++ padded 3 ext

def joined (base ext : List ℕ) : List ℕ := base ++ if ext = [] then [] else dotChar :: ext

def IsPart (part : List ℕ) : Prop := ∀ c ∈ part, c ≠ dummyChar8dot3 ∧ c ≠ dotChar

def NoSmall (part : List ℕ) : Prop := ∀ c ∈ part, ¬ (97 ≤ c ∧ c ≤ 122)

structure IsShort (base ext : List ℕ) : Prop where
  baseChars : IsPart base
  extChars : IsPart ext
  base_pos : 1 ≤ base.length
  base_le : base.length ≤ 8
  ext_le : ext.length ≤ 3

section Case

variable {c : ℕ} {part base ext : List ℕ} {n : ℕ}

theorem toLowerCase_cases (c : ℕ) :
    65 ≤ c ∧ c ≤ 90 ∧ toLowerCase c = c + 32 ∨ (c < 65 ∨ 90 < c) ∧ toLowerCase c = c := by
  rw [toLowerCase]
  split_ifs with h
  · exact .inl ⟨h.1, h.2, rfl⟩
  · exact .inr ⟨by omega, rfl⟩

theorem toUpperCase_toLowerCase (c : ℕ) : toUpperCase (toLowerCase c) = toUpperCase c := by
  have h1 := toLowerCase_cases c
  have h2 := toUpperCase_cases c
  have h3 := toUpperCase_cases (toLowerCase c)
  omega

theorem toUpperCase_idem (c : ℕ) : toUpperCase (toUpperCase c) = toUpperCase c := by
  have h1 := toUpperCase_cases c
  have h2 := toUpperCase_cases (toUpperCase c)
  omega

theorem NoSmall.map_upper (h : NoSmall part) : part.map toUpperCase = part := by
  induction part with
  | nil => rfl
  | cons c part ih =>
    rw [List.map_cons, ih fun d hd => h d (List.mem_cons_of_mem c hd)]
    congr 1
    exact if_neg (h c List.mem_cons_self)

theorem IsPart.lower (h : IsPart part) : IsPart (part.map toLowerCase) := by
  intro d hd
  obtain ⟨c, hc, rfl⟩ := List.mem_map.mp hd
  obtain ⟨h1, h2⟩ := h c hc
  have h3 := toLowerCase_cases c
  rw [dummyChar8dot3] at h1 ⊢
  rw [dotChar] at h2 ⊢
  omega

theorem IsPart.upper (h : IsPart part) : IsPart (part.map toUpperCase) := by
  intro d hd
  obtain ⟨c, hc, rfl⟩ := List.mem_map.mp hd
  obtain ⟨h1, h2⟩ := h c hc
  have h3 := toUpperCase_cases c
  rw [dummyChar8dot3] at h1 ⊢
  rw [dotChar] at h2 ⊢
  omega

theorem IsShort.lower (h : IsShort base ext) :
    IsShort (base.map toLowerCase) (ext.map toLowerCase) :=
  ⟨h.baseChars.lower, h.extChars.lower, by simpa using h.base_pos, by simpa using h.base_le,
    by simpa using h.ext_le⟩

theorem IsShort.upper (h : IsShort base ext) :
    IsShort (base.map toUpperCase) (ext.map toUpperCase) :=
  ⟨h.baseChars.upper, h.extChars.upper, by simpa using h.base_pos, by simpa using h.base_le,
    by simpa using h.ext_le⟩

end Case

section Encode

variable {base ext part src : List ℕ} {i n : ℕ}

theorem dotPos_eq (hi : i < src.length) (hdot : src.getD i 0 = dotChar)
    (hrest : ∀ j, i < j → j < src.length → src.getD j 0 ≠ dotChar) : dotPos src = i := by
  rw [dotPos]
  generalize hn : src.length = n at hi hrest
  have key : ∀ m, i < m → m ≤ n →
      ((List.range m).reverse.find? fun j => src.getD j 0 == dotChar) = some i := by
    intro m him hmn
    induction m with
    | zero => omega
    | succ m ih =>
      rw [List.range_succ, List.reverse_append, List.reverse_singleton, List.singleton_append]
      rcases Nat.lt_succ_iff_lt_or_eq.mp him with hlt | rfl
      · rw [List.find?_cons_of_neg (by simpa using hrest m hlt (by omega))]
        exact ih hlt (by omega)
      · exact List.find?_cons_of_pos (by simpa using hdot)
  rw [key n hi le_rfl]
  rfl

theorem dotPos_of_part (h : IsPart src) : dotPos src = src.length := by
  have hnone : ((List.range src.length).reverse.find? fun j => src.getD j 0 == dotChar) = none := by
    rw [List.find?_eq_none]
    intro j hj
    have hj := List.mem_range.mp (List.mem_reverse.mp hj)
    rw [List.getD_eq_getElem _ _ hj, beq_iff_eq]
    exact (h _ (List.getElem_mem hj)).2
  rw [dotPos, hnone]
  rfl

theorem dotPos_joined (hb : IsPart base) (he : IsPart ext) :
    dotPos (joined base ext) = base.length := by
  rw [joined]
  split_ifs with hnil
  · rw [List.append_nil]
    exact dotPos_of_part hb
  · refine dotPos_eq (by simp) (by simp) fun j h1 h2 => ?_
    obtain ⟨k, rfl⟩ : ∃ k, j = base.length + (k + 1) := ⟨j - base.length - 1, by omega⟩
    have hk : k < ext.length := by simpa using h2
    rw [List.getD_append_right _ _ _ _ (by omega), Nat.add_sub_cancel_left, List.getD_cons_succ,
      List.getD_eq_getElem _ _ hk]
    exact (he _ (List.getElem_mem hk)).2

/-- A part of the field is filled letter by letter, and with blanks where the part has ended. -/
theorem range_map_eq_padded (hn : part.length ≤ n) (f : ℕ → ℕ)
    (hf : ∀ j, f j = if j < part.length then part.getD j 0 else dummyChar8dot3) :
    (List.range n).map f = padded n part := by
  rw [padded]
  refine List.ext_getElem (by simp [hn]) fun j h1 h2 => ?_
  rw [List.getElem_map, List.getElem_range, hf]
  split_ifs with hj
  · rw [List.getElem_append_left hj, List.getD_eq_getElem _ _ hj]
  · rw [List.getElem_append_right (by omega), List.getElem_replicate]

theorem convertNormalTo8dot3_joined (h : IsShort base ext) :
    convertNormalTo8dot3 (joined base ext) =
      nameField (base.map toUpperCase) (ext.map toUpperCase) := by
  have hlen : (joined base ext).length =
      base.length + if ext = [] then 0 else ext.length + 1 := by
    rw [joined]
    split_ifs <;> simp
  rw [convertNormalTo8dot3, dotPos_joined h.baseChars h.extChars, nameField]
  congr 1
  · refine range_map_eq_padded (by simpa using h.base_le) _ fun j => ?_
    rw [List.length_map]
    split_ifs with hj
    · rw [joined, List.getD_append _ _ _ _ hj, List.getD_eq_getElem _ _ hj,
        List.getD_eq_getElem _ _ (by simpa using hj), List.getElem_map]
    · rfl
  · refine range_map_eq_padded (by simpa using h.ext_le) _ fun j => ?_
    rw [List.length_map, hlen]
    by_cases hnil : ext = []
    · rw [if_pos hnil, if_neg (by omega), hnil]
      rfl
    · have hiff : base.length + 1 + j < base.length + (if ext = [] then 0 else ext.length + 1) ↔
          j < ext.length := by
        rw [if_neg hnil]
        omega
      simp only [hiff]
      split_ifs with hj
      · rw [joined, if_neg hnil, List.getD_append_right _ _ _ _ (by omega),
          show base.length + 1 + j - base.length = j + 1 by omega, List.getD_cons_succ,
          List.getD_eq_getElem _ _ hj, List.getD_eq_getElem _ _ (by simpa using hj),
          List.getElem_map]
      · rfl

end Encode

section Decode

variable {base ext part : List ℕ} {n : ℕ}

theorem takeWhile_padded (h : IsPart part) (n : ℕ) :
    (padded n part).takeWhile (· ≠ dummyChar8dot3) = part := by
  rw [padded, List.takeWhile_append_of_pos fun c hc => by simpa using (h c hc).1]
  have hpad : (List.replicate (n - part.length) dummyChar8dot3).takeWhile
      (· ≠ dummyChar8dot3) = [] := by
    cases n - part.length <;> rfl
  rw [hpad, List.append_nil]

theorem length_padded (h : part.length ≤ n) : (padded n part).length = n := by
  rw [padded, List.length_append, List.length_replicate]
  omega

theorem convert8dot3ToNormal_nameField (h : IsShort base ext) :
    convert8dot3ToNormal (fun i => (nameField base ext).getD i 0) =
      joined (base.map toLowerCase) (ext.map toLowerCase) := by
  have h8 := length_padded h.base_le
  have h3 := length_padded h.ext_le
  have hbase : ((List.range 8).map fun i => (nameField base ext).getD i 0) = padded 8 base := by
    refine List.ext_getElem (by simp [h8]) fun i h1 h2 => ?_
    rw [List.getElem_map, List.getElem_range, nameField, List.getD_append _ _ _ _ h2,
      List.getD_eq_getElem _ _ h2]
  have hext : ((List.range 3).map fun i => (nameField base ext).getD (8 + i) 0) = padded 3 ext := by
    refine List.ext_getElem (by simp [h3]) fun i h1 h2 => ?_
    rw [List.getElem_map, List.getElem_range, nameField,
      List.getD_append_right _ _ _ _ (by omega), h8, Nat.add_sub_cancel_left,
      List.getD_eq_getElem _ _ h2]
  rw [convert8dot3ToNormal, hbase, hext, takeWhile_padded h.baseChars, takeWhile_padded h.extChars,
    joined]
  simp only [List.isEmpty_iff, List.map_eq_nil_iff]

end Decode

section Compare

variable {a b : List ℕ}

/-- Names with the same letters are the same to the comparison, zero bytes or not. -/
theorem compareFat32_of_sameLetters (h : SameLetters a b) : compareFat32 a b = 0 := by
  induction a generalizing b with
  | nil =>
    cases b with
    | nil => rfl
    | cons d b => cases h
  | cons c a ih =>
    cases b with
    | nil => cases h
    | cons d b =>
      obtain ⟨hcd, hrest⟩ : toUpperCase c = toUpperCase d ∧ SameLetters a b := by
        simpa [SameLetters] using h
      by_cases hc : c = 0
      · have hd := toUpperCase_cases d
        have hd0 : d = 0 := by
          rw [← hcd, hc] at hd
          change 97 ≤ d ∧ d ≤ 122 ∧ 0 = d - 32 ∨ (d < 97 ∨ 122 < d) ∧ 0 = d at hd
          omega
        rw [hc, hd0]
        rfl
      · rw [compareFat32_cons hc hcd]
        exact ih hrest

theorem joined_sameLetters (f g : ℕ → ℕ) (h : ∀ c, toUpperCase (f c) = toUpperCase (g c))
    (base ext : List ℕ) :
    SameLetters (joined (base.map f) (ext.map f)) (joined (base.map g) (ext.map g)) := by
  have hmap (part : List ℕ) : (part.map f).map toUpperCase = (part.map g).map toUpperCase := by
    rw [List.map_map, List.map_map]
    exact List.map_congr_left fun c _ => h c
  rw [SameLetters, joined, joined, List.map_append, List.map_append, hmap base]
  congr 1
  simp only [List.map_eq_nil_iff]
  split_ifs
  · rfl
  · rw [List.map_cons, List.map_cons, hmap ext]

end Compare

theorem shortName_round_trips {base ext : List ℕ} (h : IsShort base ext) :
    (NoSmall base → NoSmall ext →
      convertNormalTo8dot3 (convert8dot3ToNormal fun i => (nameField base ext).getD i 0) =
        nameField base ext) ∧
      compareFat32 (convert8dot3ToNormal fun i =>
        (convertNormalTo8dot3 (joined base ext)).getD i 0) (joined base ext) = 0 := by
  constructor
  · intro hb he
    rw [convert8dot3ToNormal_nameField h, convertNormalTo8dot3_joined h.lower, List.map_map,
      List.map_map]
    have hfun : toUpperCase ∘ toLowerCase = toUpperCase := funext toUpperCase_toLowerCase
    rw [hfun, hb.map_upper, he.map_upper]
  · rw [convertNormalTo8dot3_joined h, convert8dot3ToNormal_nameField h.upper, List.map_map,
      List.map_map]
    have hsame := joined_sameLetters (toLowerCase ∘ toUpperCase) id
      (fun c => (toUpperCase_toLowerCase _).trans (toUpperCase_idem c)) base ext
    rw [List.map_id, List.map_id] at hsame
    exact compareFat32_of_sameLetters hsame

/-- "A.TXT" on the disk, and "a.Txt" as it may be given. -/
theorem shortName_round_trips_small :
    convertNormalTo8dot3 (convert8dot3ToNormal fun i =>
        (nameField [65] [84, 88, 84]).getD i 0) = nameField [65] [84, 88, 84] ∧
      compareFat32 (convert8dot3ToNormal fun i =>
        (convertNormalTo8dot3 (joined [97] [84, 120, 116])).getD i 0)
        (joined [97] [84, 120, 116]) = 0 :=
  ⟨(shortName_round_trips ⟨by simp [IsPart, dummyChar8dot3, dotChar],
      by simp [IsPart, dummyChar8dot3, dotChar], by decide, by decide, by decide⟩).1
      (by simp [NoSmall]) (by simp [NoSmall]),
    (shortName_round_trips ⟨by simp [IsPart, dummyChar8dot3, dotChar],
      by simp [IsPart, dummyChar8dot3, dotChar], by decide, by decide, by decide⟩).2⟩

end OurOS.Fs
