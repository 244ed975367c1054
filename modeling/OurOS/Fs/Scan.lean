import OurOS.Fs.Contents

namespace OurOS.Fs

/-- The entries before the first unused one. -/
def usedSfn (data : ℕ → ℕ) (offs : List ℕ) : List ℕ :=
  offs.takeWhile fun off => data off != sfnMarkUnused

def visibleSfn (skips : ℕ → Bool) (data : ℕ → ℕ) (offs : List ℕ) : List ℕ :=
  (usedSfn data offs).filter fun off => data off != sfnMarkDeleted && !skips (sfnAttr data off)

/-- The entries that a scan of a directory does not pass over: each is a block and an offset. -/
def visibleEntries (skips : ℕ → Bool) (blksize : ℕ) (c : ℕ → ℕ → ℕ) (maps : List ℕ) :
    List (ℕ × ℕ) :=
  maps.flatMap fun m => (visibleSfn skips (c m) (sfnOffsets blksize)).map (Prod.mk m)

def entryName (c : ℕ → ℕ → ℕ) (e : ℕ × ℕ) : List ℕ := sfnName (c e.1) e.2

def entryAttr (c : ℕ → ℕ → ℕ) (e : ℕ × ℕ) : ℕ := sfnAttr (c e.1) e.2

def entryClu (c : ℕ → ℕ → ℕ) (e : ℕ × ℕ) : ℕ := sfn1stclu (c e.1) e.2

def namedEntry (skips : ℕ → Bool) (blksize : ℕ) (c : ℕ → ℕ → ℕ) (maps : List ℕ) (name : List ℕ) :
    Option (ℕ × ℕ) :=
  (visibleEntries skips blksize c maps).find? fun e => compareFat32 name (entryName c e) == 0

section Find

variable {α : Type} {p q : α → Bool}

theorem find?_congr {l : List α} (h : ∀ x ∈ l, p x = q x) : l.find? p = l.find? q := by
  induction l with
  | nil => rfl
  | cons x l ih =>
    rw [List.find?_cons, List.find?_cons, h x List.mem_cons_self,
      ih fun y hy => h y (List.mem_cons_of_mem _ hy)]

theorem find?_filter_eq_iff {l : List α} :
    (l.filter q).find? p = l.find? p ↔ ∀ x, l.find? p = some x → q x = true := by
  refine ⟨fun h x hx => ?_, fun h => ?_⟩
  · exact (List.mem_filter.mp (List.mem_of_find?_eq_some (h.trans hx))).2
  · induction l with
    | nil => rfl
    | cons x l ih =>
      rw [List.find?_cons] at h ⊢
      cases hp : p x with
      | true =>
        rw [List.filter_cons, if_pos (h x (by rw [hp])), List.find?_cons, hp]
      | false =>
        have ih := ih fun y hy => h y (by rw [hp]; exact hy)
        cases hq : q x with
        | true => rw [List.filter_cons, if_pos hq, List.find?_cons, hp, ih]
        | false => rw [List.filter_cons, if_neg (by simp [hq]), ih]

end Find

section Compare

theorem toUpperCase_eq_zero {c : ℕ} : toUpperCase c = 0 ↔ c = 0 := by
  rw [toUpperCase]
  split_ifs <;> omega

theorem commonPrefixDrop_swap (a b : List ℕ) :
    commonPrefixDrop b a = (commonPrefixDrop a b).swap := by
  induction a generalizing b with
  | nil => cases b <;> rfl
  | cons p ps ih =>
    cases b with
    | nil => rfl
    | cons q qs =>
      have hiff : (q ≠ 0 ∧ toUpperCase q = toUpperCase p) ↔
          (p ≠ 0 ∧ toUpperCase p = toUpperCase q) := by
        refine ⟨fun ⟨h1, h2⟩ => ⟨fun h => h1 ?_, h2.symm⟩, fun ⟨h1, h2⟩ => ⟨fun h => h1 ?_, h2.symm⟩⟩
        · rw [← toUpperCase_eq_zero, h2, toUpperCase_eq_zero, h]
        · rw [← toUpperCase_eq_zero, h2, toUpperCase_eq_zero, h]
      rw [commonPrefixDrop, commonPrefixDrop]
      simp only [hiff]
      split_ifs
      · exact ih qs
      · rfl

theorem compareFat32_comm (a b : List ℕ) : compareFat32 a b = 0 ↔ compareFat32 b a = 0 := by
  have hneg : compareFat32 b a = - compareFat32 a b := by
    simp only [compareFat32, commonPrefixDrop_swap a b, Prod.fst_swap, Prod.snd_swap]
    ring
  rw [hneg, neg_eq_zero]

end Compare

section Sfn

variable {skips : ℕ → Bool} {test : List ℕ → Bool} {data data' : ℕ → ℕ} {offs : List ℕ}

theorem visibleSfn_unused {off : ℕ} (h : data off = sfnMarkUnused) :
    visibleSfn skips data (off :: offs) = [] := by
  simp [visibleSfn, usedSfn, h]

theorem visibleSfn_cons {off : ℕ} (h : data off ≠ sfnMarkUnused) :
    visibleSfn skips data (off :: offs) =
      if data off = sfnMarkDeleted ∨ skips (sfnAttr data off) = true then visibleSfn skips data offs
      else off :: visibleSfn skips data offs := by
  have hused : usedSfn data (off :: offs) = off :: usedSfn data offs := by simp [usedSfn, h]
  rw [visibleSfn, hused, List.filter_cons]
  by_cases h2 : data off = sfnMarkDeleted
  · simp [h2, visibleSfn]
  · by_cases h3 : skips (sfnAttr data off) = true
    · simp [h3, visibleSfn]
    · simp [h2, h3, visibleSfn]

theorem scanSfn_eq : scanSfn skips test data offs =
    (visibleSfn skips data offs).find? fun off => test (sfnName data off) := by
  induction offs with
  | nil => rfl
  | cons off offs ih =>
    rw [scanSfn]
    by_cases h1 : data off = sfnMarkUnused
    · rw [if_pos h1, visibleSfn_unused h1, List.find?_nil]
    · rw [if_neg h1, visibleSfn_cons h1]
      by_cases h2 : data off = sfnMarkDeleted
      · rw [if_pos h2, if_pos (.inl h2), ih]
      · by_cases h3 : skips (sfnAttr data off) = true
        · rw [if_neg h2, if_pos h3, if_pos (.inr h3), ih]
        · rw [if_neg h2, if_neg h3, if_neg (not_or.mpr ⟨h2, h3⟩), List.find?_cons, ih]
          cases test (sfnName data off) <;> rfl

def SameSfns (data data' : ℕ → ℕ) (offs : List ℕ) : Prop :=
  ∀ off ∈ offs, ∀ i < sfnSize, data (off + i) = data' (off + i)

theorem SameSfns.mark (h : SameSfns data data' offs) {off : ℕ} (ho : off ∈ offs) :
    data off = data' off := h off ho 0 (by decide)

theorem SameSfns.attr (h : SameSfns data data' offs) {off : ℕ} (ho : off ∈ offs) :
    sfnAttr data off = sfnAttr data' off := h off ho 11 (by decide)

theorem SameSfns.name (h : SameSfns data data' offs) {off : ℕ} (ho : off ∈ offs) :
    sfnName data off = sfnName data' off := by
  have h8 : (List.range 8).map (fun i => data (off + i)) = (List.range 8).map fun i => data' (off + i) :=
    List.map_congr_left fun i hi => h off ho i ((List.mem_range.mp hi).trans (by decide))
  have h3 : (List.range 3).map (fun i => data (off + (8 + i))) =
      (List.range 3).map fun i => data' (off + (8 + i)) :=
    List.map_congr_left fun i hi => h off ho (8 + i) (by
      have := List.mem_range.mp hi
      rw [sfnSize]
      omega)
  simp only [sfnName, convert8dot3ToNormal]
  rw [h8, h3]

theorem SameSfns.clu (h : SameSfns data data' offs) {off : ℕ} (ho : off ∈ offs) :
    sfn1stclu data off = sfn1stclu data' off := by
  simp only [sfn1stclu, word, Nat.add_assoc]
  rw [h off ho 26 (by decide), h off ho 27 (by decide), h off ho 20 (by decide),
    h off ho 21 (by decide)]

theorem SameSfns.visible (h : SameSfns data data' offs) :
    visibleSfn skips data offs = visibleSfn skips data' offs := by
  have hused : usedSfn data offs = usedSfn data' offs := by
    induction offs with
    | nil => rfl
    | cons off offs ih =>
      rw [usedSfn, usedSfn, List.takeWhile_cons, List.takeWhile_cons, h.mark List.mem_cons_self]
      have ih := ih fun o ho => h o (List.mem_cons_of_mem _ ho)
      rw [usedSfn, usedSfn] at ih
      rw [ih]
  rw [visibleSfn, visibleSfn, hused]
  refine List.filter_congr fun off ho => ?_
  have hmem : off ∈ offs := (List.takeWhile_prefix _).subset ho
  rw [h.mark hmem, h.attr hmem]

theorem mem_visibleSfn {off : ℕ} : off ∈ visibleSfn skips data offs → off ∈ offs := fun h =>
  (List.takeWhile_prefix _).subset (List.mem_of_mem_filter h)

theorem mem_sfnOffsets {cnt off : ℕ} (h : off ∈ sfnOffsets (sectorSize * cnt)) :
    off + sfnSize ≤ sectorSize * cnt := by
  obtain ⟨k, hk, rfl⟩ := List.mem_map.mp h
  have hk := List.mem_range.mp hk
  simp only [sfnSize, sectorSize] at hk ⊢
  omega

theorem sameSfns_block {cnt : ℕ} (h : ∀ i < sectorSize * cnt, data i = data' i) :
    SameSfns data data' (sfnOffsets (sectorSize * cnt)) := fun _ ho i hi =>
  h _ (by have := mem_sfnOffsets ho; omega)

theorem lookupSkips_scanSkips {attr : ℕ} (h : lookupSkips attr = true) : scanSkips attr = true := by
  simp only [lookupSkips, Bool.or_eq_true, beq_iff_eq] at h
  rcases h with rfl | rfl <;> decide

theorem visibleSfn_scan : visibleSfn scanSkips data offs =
    (visibleSfn lookupSkips data offs).filter fun off => !scanSkips (sfnAttr data off) := by
  rw [visibleSfn, visibleSfn, List.filter_filter]
  refine List.filter_congr fun off _ => ?_
  cases h : scanSkips (sfnAttr data off) with
  | true => simp
  | false =>
    cases hl : lookupSkips (sfnAttr data off) with
    | true => rw [lookupSkips_scanSkips hl] at h; cases h
    | false => simp

end Sfn

def IsEntry (s : FsSys) (e r : ℕ × ℕ) : Prop :=
  (s.maps e.1).mapPage = some (.ok r.1) ∧ r.2 = e.2

section Select

variable {env : FsEnv} {maps ms : List ℕ} {cnt : ℕ} {a : ℕ → ℕ} {c : ℕ → ℕ → ℕ} {s t : FsSys}
  {skips : ℕ → Bool} {test : List ℕ → Bool}

theorem sectors_shiftRight (cnt : ℕ) : (sectorSize * cnt) >>> sectorShift = cnt := by
  rw [Nat.shiftRight_eq_div_pow, sectorSize, sectorShift]
  omega

theorem visibleEntries_cons (m : ℕ) (ms : List ℕ) (blksize : ℕ) :
    visibleEntries skips blksize c (m :: ms) =
      (visibleSfn skips (c m) (sfnOffsets blksize)).map (Prod.mk m) ++
        visibleEntries skips blksize c ms := List.flatMap_cons

theorem Shows.sameSfns (h : Shows maps cnt a c s) {m page : ℕ} (hm : m ∈ maps)
    (hp : (s.maps m).mapPage = some (.ok page)) :
    SameSfns (s.pages page).pData (c m) (sfnOffsets (sectorSize * cnt)) :=
  sameSfns_block fun i hi => by rw [← h.bytes m hm i hi, blockByte_page hp]

variable (skips test) in
theorem scanSfn_block {data : ℕ → ℕ} {m : ℕ}
    (h : SameSfns data (c m) (sfnOffsets (sectorSize * cnt))) :
    scanSfn skips test data (sfnOffsets (sectorSize * cnt)) =
      (visibleSfn skips (c m) (sfnOffsets (sectorSize * cnt))).find? fun off =>
        test (entryName c (m, off)) := by
  rw [scanSfn_eq, h.visible]
  refine find?_congr fun off ho => ?_
  rw [h.name (mem_visibleSfn (h.visible ▸ ho))]
  rfl

theorem scanDir_select (h : Shows maps cnt a c s) (hsub : ∀ m ∈ ms, m ∈ maps)
    {r : Option (ℕ × ℕ)}
    (hr : scanDir env skips test (sectorSize * cnt) ms s = some (.ok r, t)) :
    Option.Rel (IsEntry t)
      ((visibleEntries skips (sectorSize * cnt) c ms).find? fun e => test (entryName c e)) r := by
  induction ms generalizing s with
  | nil =>
    cases hr
    exact .none
  | cons m ms ih =>
    have hm := hsub m List.mem_cons_self
    obtain ⟨page, u, h1, hr⟩ := Prog.bind_ok_cases hr
    obtain ⟨hu, hp⟩ := getFspage_shows h (sectors_shiftRight cnt).le h1
    have hscan := scanSfn_block skips test (hu.sameSfns hm (hp page rfl))
    rw [Prog.get_bind_run] at hr
    rw [visibleEntries_cons, List.find?_append, List.find?_map]
    cases hf : scanSfn skips test (u.pages page).pData (sfnOffsets (sectorSize * cnt)) with
    | some off =>
      simp only [hf] at hr
      cases hr
      rw [hf] at hscan
      have hfirst : List.find? ((fun e => test (entryName c e)) ∘ Prod.mk m)
          (visibleSfn skips (c m) (sfnOffsets (sectorSize * cnt))) = some off := hscan.symm
      rw [hfirst]
      exact .some ⟨hp page rfl, rfl⟩
    | none =>
      simp only [hf] at hr
      rw [hf] at hscan
      have hfirst : List.find? ((fun e => test (entryName c e)) ∘ Prod.mk m)
          (visibleSfn skips (c m) (sfnOffsets (sectorSize * cnt))) = none := hscan.symm
      rw [hfirst]
      exact ih hu (fun n hn => hsub n (List.mem_cons_of_mem _ hn)) hr

theorem visibleEntries_scan (blksize : ℕ) (c : ℕ → ℕ → ℕ) (ms : List ℕ) :
    visibleEntries scanSkips blksize c ms =
      (visibleEntries lookupSkips blksize c ms).filter fun e => !scanSkips (entryAttr c e) := by
  induction ms with
  | nil => rfl
  | cons m ms ih =>
    rw [visibleEntries_cons, visibleEntries_cons, List.filter_append, ih, visibleSfn_scan,
      List.filter_map]
    rfl

theorem namedEntry_scan (blksize : ℕ) (c : ℕ → ℕ → ℕ) (ms : List ℕ) (name : List ℕ) :
    namedEntry scanSkips blksize c ms name = namedEntry lookupSkips blksize c ms name ↔
      ∀ e, namedEntry lookupSkips blksize c ms name = some e → scanSkips (entryAttr c e) = false := by
  rw [namedEntry, visibleEntries_scan, namedEntry, find?_filter_eq_iff]
  simp only [Bool.not_eq_true']

end Select

end OurOS.Fs
