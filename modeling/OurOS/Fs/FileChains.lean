import OurOS.Fs.FatChain

namespace OurOS.Fs

structure FileChains (n : ℕ) (fat : ℕ → ℕ) (files : List ℕ) (ls : List (List ℕ)) : Prop where
  heads : ls.map List.head? = files.map some
  chains : Chains fat fatItemEnd ls
  bounds : ∀ l ∈ ls, ∀ c ∈ l, 2 ≤ c ∧ c < n
  used : ∀ l ∈ ls, ∀ c ∈ l, fat c ≠ fatItemFree

/-- The chains of the files are disjoint, without repetitions, and closed by the end mark. -/
def FilesLinked (n : ℕ) (fat : ℕ → ℕ) (files : List ℕ) : Prop := ∃ ls, FileChains n fat files ls

structure Reserved (fat : ℕ → ℕ) : Prop where
  zero : fat 0 ≠ fatItemFree
  one : fat 1 ≠ fatItemFree

section Files

variable {n p : ℕ} {fat fat' : ℕ → ℕ} {files : List ℕ} {ls : List (List ℕ)} {xs : List ℕ}

theorem Reserved.two_le (h : Reserved fat) {c : ℕ} (hc : fat c = fatItemFree) : 2 ≤ c := by
  have h0 : c ≠ 0 := fun e => h.zero (e ▸ hc)
  have h1 : c ≠ 1 := fun e => h.one (e ▸ hc)
  omega

theorem FileChains.congr (h : FileChains n fat files ls) (he : ∀ d < n, fat' d = fat d) :
    FileChains n fat' files ls := by
  refine ⟨h.heads, ⟨fun l hl => (h.chains.chain l hl).congr fun c hc =>
    he c (h.bounds l hl c hc).2, h.chains.nodup⟩, h.bounds, fun l hl c hc => ?_⟩
  rw [he c (h.bounds l hl c hc).2]
  exact h.used l hl c hc

theorem chain_used {l : List ℕ} (h : Chain fat fatItemEnd l) (hb : ∀ c ∈ l, 2 ≤ c) {c : ℕ}
    (hc : c ∈ l) : fat c ≠ fatItemFree := by
  rcases h.next_mem hc with e | e
  · have := hb _ e
    rw [fatItemFree]
    omega
  · rw [e]
    decide

theorem FileChains.split (h : FileChains n fat files ls) (hp : p ∈ files) :
    ∃ as bs cs as' bs', files = as' ++ p :: bs' ∧ ls = as ++ (p :: cs) :: bs ∧
      as.map List.head? = as'.map some ∧ bs.map List.head? = bs'.map some := by
  obtain ⟨as', bs', rfl⟩ := List.append_of_mem hp
  have hh := h.heads
  rw [List.map_append, List.map_cons] at hh
  obtain ⟨as, rest, rfl, h1, h2⟩ := List.map_eq_append_iff.mp hh
  obtain ⟨l, bs, rfl, h3, h4⟩ := List.map_eq_cons_iff.mp h2
  obtain ⟨cs, rfl⟩ := List.head?_eq_some_iff.mp h3
  exact ⟨as, bs, cs, as', bs', rfl, rfl, h1, h4⟩

theorem FileChains.head_ok {b : SuperBlock} (hv : Volume b n) (h : FileChains n fat files ls)
    (hp : p ∈ files) : isErrValue (fat p) = false ∧ fat p ≠ fatItemFree := by
  obtain ⟨as, bs, cs, as', bs', rfl, rfl, -, -⟩ := h.split hp
  have hmem : p :: cs ∈ as ++ (p :: cs) :: bs := by simp
  refine ⟨?_, h.used _ hmem p List.mem_cons_self⟩
  rcases (h.chains.chain _ hmem).next_mem List.mem_cons_self with e | e
  · exact hv.not_err (h.bounds _ hmem _ e).2
  · rw [e]
    exact not_err_end

/-- The chain of one file has become `p :: xs`, where `xs` are taken from the free clusters or from
the chain itself. -/
theorem FileChains.relink {as bs : List (List ℕ)} {cs : List ℕ}
    (h : FileChains n fat files (as ++ (p :: cs) :: bs))
    (he : ∀ c ∈ (as ++ bs).flatten, fat' c = fat c) (hl : Chain fat' fatItemEnd (p :: xs))
    (hnd : (p :: xs).Nodup) (hb : ∀ x ∈ xs, 2 ≤ x ∧ x < n) (hd : ∀ x ∈ xs, x ∉ (as ++ bs).flatten) :
    FileChains n fat' files (as ++ (p :: xs) :: bs) := by
  have hp := h.bounds (p :: cs) (by simp) p List.mem_cons_self
  have hpd := h.chains.apart List.mem_cons_self
  have hbounds : ∀ l ∈ as ++ (p :: xs) :: bs, ∀ c ∈ l, 2 ≤ c ∧ c < n := by
    intro l hl c hc
    rcases List.mem_append.mp hl with hl | hl
    · exact h.bounds l (by simp [hl]) c hc
    · rcases List.mem_cons.mp hl with rfl | hl
      · rcases List.mem_cons.mp hc with rfl | hc
        · exact hp
        · exact hb c hc
      · exact h.bounds l (by simp [hl]) c hc
  have hchains := h.chains.replace he hl hnd (List.forall_mem_cons.mpr ⟨hpd, hd⟩)
  refine ⟨?_, hchains, hbounds, fun l hl c hc => ?_⟩
  · rw [← h.heads]
    simp
  · exact chain_used (hchains.chain l hl) (fun d hd => (hbounds l hl d hd).1) hc

theorem FileChains.not_free (h : FileChains n fat files ls) {x : ℕ} (hx : fat x = fatItemFree) :
    x ∉ ls.flatten := by
  intro hm
  obtain ⟨l, hl, hc⟩ := List.mem_flatten.mp hm
  exact h.used l hl x hc hx

theorem FileChains.lengthen {as bs : List (List ℕ)} {cs : List ℕ}
    (h : FileChains n fat files (as ++ (p :: cs) :: bs)) {num start : ℕ}
    (hrun : freeRun fat n num start = some xs) (h2 : ∀ x ∈ xs, 2 ≤ x) :
    FileChains n (linkAll fatItemEnd fat p xs) files (as ++ (p :: xs) :: bs) := by
  obtain ⟨-, hnd, hfree⟩ := freeRun_spec hrun
  have hpm : p ∈ (as ++ (p :: cs) :: bs).flatten := by simp
  have hpx : p ∉ xs := fun e => h.not_free (hfree p e).2.2 hpm
  have hout : ∀ c ∈ (as ++ bs).flatten, c ∉ p :: xs := by
    intro c hc hm
    rcases List.mem_cons.mp hm with rfl | hm
    · exact h.chains.apart List.mem_cons_self hc
    · refine h.not_free (hfree c hm).2.2 ?_
      simp only [List.flatten_append, List.flatten_cons, List.mem_append] at hc ⊢
      tauto
  have hpxs := List.nodup_cons.mpr ⟨hpx, hnd⟩
  exact h.relink (fun c hc => linkAll_of_not_mem (hout c hc)) (linkAll_chain hpxs) hpxs
    (fun x hx => ⟨h2 x hx, (hfree x hx).2.1⟩) fun x hx hm => hout x hm (List.mem_cons_of_mem _ hx)

theorem Reserved.of_keep (h : Reserved fat) (hk : ∀ c < 2, fat' c = fat c) : Reserved fat' :=
  ⟨by rw [hk 0 (by omega)]; exact h.zero, by rw [hk 1 (by omega)]; exact h.one⟩

theorem FileChains.expand {as bs : List (List ℕ)} {cs : List ℕ}
    (h : FileChains n fat files (as ++ (p :: cs) :: bs)) (hr : Reserved fat)
    {num start : ℕ} (hrun : freeRun fat n num start = some xs) :
    FileChains n (linkAll fatItemEnd fat p xs) files (as ++ (p :: xs) :: bs) ∧
      Reserved (linkAll fatItemEnd fat p xs) := by
  have h2 : ∀ x ∈ xs, 2 ≤ x := fun x hx => hr.two_le ((freeRun_spec hrun).2.2 x hx).2.2
  refine ⟨h.lengthen hrun h2, hr.of_keep fun c hc => linkAll_of_not_mem fun hm => ?_⟩
  rcases List.mem_cons.mp hm with rfl | hm
  · have := (h.bounds (c :: cs) (by simp) c List.mem_cons_self).1
    omega
  · have := h2 c hm
    omega

theorem FileChains.take (h : FileChains n fat files ls) {c v : ℕ} (hfree : fat c = fatItemFree) :
    FileChains n (Function.update fat c v) files ls := by
  have hupd : ∀ l ∈ ls, ∀ d ∈ l, Function.update fat c v d = fat d := fun l hl d hd =>
    Function.update_of_ne (fun e : d = c =>
      h.not_free (e ▸ hfree) (List.mem_flatten.mpr ⟨l, hl, hd⟩)) _ _
  refine ⟨h.heads, ⟨fun l hl => (h.chains.chain l hl).congr (hupd l hl), h.chains.nodup⟩, h.bounds,
    fun l hl d hd => ?_⟩
  rw [hupd l hl d hd]
  exact h.used l hl d hd

theorem FileChains.fill (h : FileChains n fat files ls) (hr : Reserved fat) {c v : ℕ}
    (hfree : fat c = fatItemFree) :
    FileChains n (Function.update fat c v) files ls ∧ Reserved (Function.update fat c v) := by
  have h2 := hr.two_le hfree
  exact ⟨h.take hfree, hr.of_keep fun d hd => Function.update_of_ne (by omega) _ _⟩

theorem FileChains.insert (h : FileChains n fat files ls) {c : ℕ} (hc : 2 ≤ c ∧ c < n)
    (hend : fat c = fatItemEnd) (hout : c ∉ ls.flatten) :
    FileChains n fat (files ++ [c]) (ls ++ [[c]]) := by
  have hbounds : ∀ l ∈ ls ++ [[c]], ∀ d ∈ l, 2 ≤ d ∧ d < n := by
    intro l hl d hd
    rcases List.mem_append.mp hl with hl | hl
    · exact h.bounds l hl d hd
    · obtain rfl := List.mem_singleton.mp hl
      obtain rfl := List.mem_singleton.mp hd
      exact hc
  have hchains : Chains fat fatItemEnd (ls ++ [[c]]) := by
    refine Chains.insert (show Chains _ _ (ls ++ []) by simpa using h.chains) (fun _ _ => rfl) hend
      (List.nodup_singleton c) fun d hd => ?_
    obtain rfl := List.mem_singleton.mp hd
    simpa using hout
  exact ⟨by simp [h.heads], hchains, hbounds, fun l hl d hd =>
    chain_used (hchains.chain l hl) (fun e he => (hbounds l hl e he).1) hd⟩

theorem FilesLinked.new (h : FilesLinked n fat files) {c : ℕ} (hc : 2 ≤ c ∧ c < n)
    (hfree : fat c = fatItemFree) :
    FilesLinked n (Function.update fat c fatItemEnd) (files ++ [c]) := by
  obtain ⟨ls, h⟩ := h
  exact ⟨_, (h.take hfree).insert hc (Function.update_self _ _ _) (h.not_free hfree)⟩

theorem FileChains.cut {as bs : List (List ℕ)} {cs : List ℕ}
    (h : FileChains n fat files (as ++ (p :: cs) :: bs)) :
    FileChains n (setAll (Function.update fat p fatItemEnd) fatItemFree cs) files
      (as ++ [p] :: bs) := by
  have hnd : (p :: cs).Nodup := (List.nodup_flatten.mp h.chains.nodup).1 _ (by simp)
  have hpc := (List.nodup_cons.mp hnd).1
  have hkeep : ∀ c ∉ p :: cs,
      setAll (Function.update fat p fatItemEnd) fatItemFree cs c = fat c := by
    intro c hc
    obtain ⟨h1, h2⟩ := not_or.mp fun e => hc (List.mem_cons.mpr e)
    rw [setAll, if_neg h2, Function.update_of_ne h1]
  refine h.relink (fun c hc => hkeep c fun hm => h.chains.apart hm hc) ?_
    (List.nodup_singleton p) (by simp) (by simp)
  change setAll _ _ cs p = _
  rw [setAll, if_neg hpc, Function.update_self]

theorem FileChains.not_mem_low {l : List ℕ} (h : FileChains n fat files ls) (hl : l ∈ ls) :
    ∀ c < 2, c ∉ l := fun c hc hm => absurd (h.bounds l hl c hm).1 (by omega)

theorem FileChains.clear {as bs : List (List ℕ)} {cs : List ℕ}
    (h : FileChains n fat files (as ++ (p :: cs) :: bs)) (hr : Reserved fat) :
    FileChains n (setAll (Function.update fat p fatItemEnd) fatItemFree cs) files
        (as ++ [p] :: bs) ∧
      Reserved (setAll (Function.update fat p fatItemEnd) fatItemFree cs) := by
  refine ⟨h.cut, hr.of_keep fun c hc => ?_⟩
  obtain ⟨h1, h2⟩ := not_or.mp fun e =>
    h.not_mem_low (l := p :: cs) (by simp) c hc (List.mem_cons.mpr e)
  rw [setAll, if_neg h2, Function.update_of_ne h1]

theorem FileChains.drop {as bs : List (List ℕ)} {cs as' bs' : List ℕ}
    (h : FileChains n fat (as' ++ p :: bs') (as ++ (p :: cs) :: bs))
    (ha : as.map List.head? = as'.map some) (hb : bs.map List.head? = bs'.map some) :
    FilesLinked n (setAll fat fatItemFree (p :: cs)) ((as' ++ p :: bs').erase p) := by
  have hkeep : ∀ c ∉ p :: cs, setAll fat fatItemFree (p :: cs) c = fat c := fun c hc => if_neg hc
  have hout : ∀ c ∈ (as ++ bs).flatten, c ∉ p :: cs := fun c hc hm => h.chains.apart hm hc
  have hmem : ∀ l ∈ as ++ bs, l ∈ as ++ (p :: cs) :: bs := by
    intro l hl
    simp only [List.mem_append, List.mem_cons] at hl ⊢
    tauto
  have hp : p ∉ as' := by
    intro hm
    have hs : some p ∈ as.map List.head? := ha ▸ List.mem_map_of_mem hm
    obtain ⟨l, hl, hh⟩ := List.mem_map.mp hs
    have hpl : p ∈ l := List.mem_of_head? hh
    exact hout p (List.mem_flatten.mpr ⟨l, List.mem_append_left _ hl, hpl⟩) List.mem_cons_self
  rw [List.erase_append_right _ hp, List.erase_cons_head]
  refine ⟨as ++ bs, ?_, h.chains.remove fun c hc => hkeep c (hout c hc),
    fun l hl => h.bounds l (hmem l hl), fun l hl c hc => ?_⟩
  · rw [List.map_append, List.map_append, ha, hb]
  · rw [hkeep c (hout c (List.mem_flatten.mpr ⟨l, hl, hc⟩))]
    exact h.used l (hmem l hl) c hc

theorem FilesLinked.congr (h : FilesLinked n fat files) (he : ∀ d < n, fat' d = fat d) :
    FilesLinked n fat' files := h.imp fun _ h => h.congr he

theorem Reserved.congr (h : Reserved fat) (hn : 2 ≤ n) (he : ∀ d < n, fat' d = fat d) :
    Reserved fat' := h.of_keep fun c hc => he c (by omega)

theorem Reserved.freeRun_ne (h : Reserved fat) {num start : ℕ}
    (hrun : freeRun fat n num start = some xs) : ∀ x ∈ xs, x ≠ 0 := fun x hx e =>
  absurd (h.two_le ((freeRun_spec hrun).2.2 x hx).2.2) (by omega)

end Files

section Moves

/-- The table, the first clusters of the files and the hint of the search. -/
structure TableSys where
  fat : ℕ → ℕ
  files : List ℕ
  hint : ℕ

/-- What the operations on files do to the table: a cluster becomes a new file, a file gets the
clusters of a search in place of all but its first one, or a chain is freed from its second or from
its first cluster on. -/
inductive TableMove (n : ℕ) : TableSys → TableSys → Prop
  | create {a : TableSys} {c : ℕ} : nextFree a.fat (n - a.hint) a.hint = some c → 2 ≤ c →
      TableMove n a ⟨Function.update a.fat c fatItemEnd, a.files ++ [c], a.hint⟩
  | lengthen {a : TableSys} {p num : ℕ} {xs : List ℕ} : p ∈ a.files →
      freeRun a.fat n num a.hint = some xs → (∀ x ∈ xs, 2 ≤ x) →
      TableMove n a ⟨linkAll fatItemEnd a.fat p xs, a.files, hintAfter a.hint xs⟩
  | cut {a : TableSys} {p : ℕ} {as bs : List (List ℕ)} {cs : List ℕ} :
      FileChains n a.fat a.files (as ++ (p :: cs) :: bs) →
      TableMove n a ⟨setAll (Function.update a.fat p fatItemEnd) fatItemFree cs, a.files,
        min a.hint (cs.foldl min maxClu)⟩
  | drop {fat : ℕ → ℕ} {hint p : ℕ} {as bs : List (List ℕ)} {cs as' bs' : List ℕ} :
      FileChains n fat (as' ++ p :: bs') (as ++ (p :: cs) :: bs) →
      as.map List.head? = as'.map some → bs.map List.head? = bs'.map some →
      TableMove n ⟨fat, as' ++ p :: bs', hint⟩ ⟨setAll fat fatItemFree (p :: cs),
        (as' ++ p :: bs').erase p, min hint ((p :: cs).foldl min maxClu)⟩

def NoneBelow (n : ℕ) (a : TableSys) : Prop :=
  ∀ c, 2 ≤ c → c < a.hint → c < n → a.fat c ≠ fatItemFree

variable {n : ℕ} {a a' : TableSys}

theorem TableMove.linked (hm : TableMove n a a') (h : FilesLinked n a.fat a.files) :
    FilesLinked n a'.fat a'.files := by
  cases hm with
  | create hc h2 =>
    obtain ⟨hle, hlt, hfree⟩ := nextFree_spec hc
    exact h.new ⟨h2, by omega⟩ hfree
  | lengthen hp hrun h2 =>
    obtain ⟨ls, hl⟩ := h
    obtain ⟨as, bs, cs, -, -, -, rfl, -, -⟩ := hl.split hp
    exact ⟨_, hl.lengthen hrun h2⟩
  | cut hl => exact ⟨_, hl.cut⟩
  | drop hl ha hb => exact hl.drop ha hb

theorem TableMove.reserved (hm : TableMove n a a') (h : FilesLinked n a.fat a.files)
    (hr : Reserved a.fat) : Reserved a'.fat := by
  cases hm with
  | create hc h2 => exact hr.of_keep fun d hd => Function.update_of_ne (by omega) _ _
  | lengthen hp hrun h2 =>
    obtain ⟨ls, hl⟩ := h
    obtain ⟨as, bs, cs, -, -, -, rfl, -, -⟩ := hl.split hp
    refine hr.of_keep fun c hc => linkAll_of_not_mem fun hm => ?_
    rcases List.mem_cons.mp hm with rfl | hm
    · exact hl.not_mem_low (l := c :: cs) (by simp) c hc List.mem_cons_self
    · exact absurd (h2 c hm) (by omega)
  | @cut _ p as bs cs hl =>
    refine hr.of_keep fun c hc => ?_
    obtain ⟨h1, h2⟩ := not_or.mp fun e =>
      hl.not_mem_low (l := p :: cs) (by simp) c hc (List.mem_cons.mpr e)
    exact (if_neg h2).trans (Function.update_of_ne h1 _ _)
  | drop hl ha hb => exact hr.of_keep fun c hc => if_neg (hl.not_mem_low (by simp) c hc)

theorem freeRun_passed {fat : ℕ → ℕ} {num start : ℕ} {xs : List ℕ}
    (h : freeRun fat n num start = some xs) :
    ∀ c, start ≤ c → c < hintAfter start xs → c ∈ xs ∨ fat c ≠ fatItemFree := by
  induction num generalizing start xs with
  | zero =>
    obtain rfl := Option.some.inj h
    exact fun c h1 h2 => absurd h2 h1.not_gt
  | succ num ih =>
    obtain ⟨x, hx, h⟩ := Option.bind_eq_some_iff.mp h
    obtain ⟨ys, hys, h⟩ := Option.bind_eq_some_iff.mp h
    obtain rfl := Option.some.inj h
    intro c h1 h2
    rcases lt_trichotomy c x with hlt | rfl | hgt
    · exact .inr (nextFree_least hx c h1 hlt)
    · exact .inl List.mem_cons_self
    · exact (ih hys c hgt h2).imp_left (List.mem_cons_of_mem _)

theorem hintAfter_lt {hint : ℕ} {xs : List ℕ} (hh : hint < uintRange) (hn : n < uintRange)
    (h : ∀ x ∈ xs, x < n) : hintAfter hint xs < uintRange := by
  induction xs generalizing hint with
  | nil => exact hh
  | cons x xs ih =>
    have hx := h x List.mem_cons_self
    exact ih (by omega) fun y hy => h y (List.mem_cons_of_mem _ hy)

/-- No move leaves a free cluster below the hint: the search passes only over entries that are not
free, and what is freed is compared with the hint. -/
theorem TableMove.noneBelow (hm : TableMove n a a') (h : FilesLinked n a.fat a.files)
    (hb : NoneBelow n a) : NoneBelow n a' := by
  cases hm with
  | @create _ c hc h2 =>
    intro d h3 h4 h5
    have hne : d ≠ c := ((show d < a.hint from h4).trans_le (nextFree_spec hc).1).ne
    exact (Function.update_of_ne hne _ _).trans_ne (hb d h3 h4 h5)
  | @lengthen _ p num xs hp hrun h2 =>
    obtain ⟨ls, hl⟩ := h
    obtain ⟨as, bs, cs, -, -, -, rfl, -, -⟩ := hl.split hp
    obtain ⟨-, hnd, hfree⟩ := freeRun_spec hrun
    have hpx : p ∉ xs := fun e => hl.not_free (hfree p e).2.2 (by simp)
    have hp2 := (hl.bounds (p :: cs) (by simp) p List.mem_cons_self).1
    intro d h3 h4 h5
    by_cases hd : d ∈ p :: xs
    · exact chain_used (linkAll_chain (List.nodup_cons.mpr ⟨hpx, hnd⟩))
        (List.forall_mem_cons.mpr ⟨hp2, h2⟩) hd
    · refine (linkAll_of_not_mem hd).trans_ne ?_
      rcases lt_or_ge d a.hint with hlt | hge
      · exact hb d h3 hlt h5
      · exact (freeRun_passed hrun d hge h4).resolve_left
          fun hm => hd (List.mem_cons_of_mem _ hm)
  | @cut _ p as bs cs hl =>
    intro d h3 h4 h5
    obtain ⟨h6, h7⟩ := lt_min_iff.mp h4
    have hd : d ∉ cs := fun hm => absurd ((foldl_min_le cs maxClu).2 d hm) (by omega)
    refine (if_neg hd : setAll _ _ cs d = _).trans_ne ?_
    by_cases e : d = p
    · rw [e, Function.update_self]
      decide
    · rw [Function.update_of_ne e]
      exact hb d h3 h6 h5
  | @drop fat hint p as bs cs as' bs' hl ha hbs =>
    intro d h3 h4 h5
    obtain ⟨h6, h7⟩ := lt_min_iff.mp h4
    have hd : d ∉ p :: cs := fun hm => absurd ((foldl_min_le (p :: cs) maxClu).2 d hm) (by omega)
    exact (if_neg hd : setAll _ _ (p :: cs) d = _).trans_ne (hb d h3 h6 h5)

end Moves

end OurOS.Fs
