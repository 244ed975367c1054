import OurOS.Fs.Contents
import OurOS.Fs.Ext2

namespace OurOS.Fs

def EntryInside (data : ℕ → ℕ) (blocksize off : ℕ) : Prop :=
  off + 8 + dNameLen data off ≤ blocksize

instance (data : ℕ → ℕ) (blocksize off : ℕ) : Decidable (EntryInside data blocksize off) :=
  inferInstanceAs (Decidable (_ ≤ _))

/-- The scan ends, and all the entries it reads lie inside the block. -/
def ScanSafe (test : ℕ → Bool) (data : ℕ → ℕ) (blocksize : ℕ) : Prop :=
  ∃ n visited found, scanExt2 test data blocksize n 0 = some (visited, found) ∧
    ∀ off ∈ visited, EntryInside data blocksize off

def ListSafe (body : ℕ → FsProg Unit) (s : FsSys) (page blocksize : ℕ) : Prop :=
  ∃ n visited t, listPageExt2 body page blocksize n 0 s = some (.ok visited, t) ∧
    ∀ off ∈ visited, EntryInside (s.pages page).pData blocksize off

/-- The entries that the record lengths lead to from the one at `start`, up to the one looked for. -/
inductive Reached (test : ℕ → Bool) (data : ℕ → ℕ) (blocksize : ℕ) : ℕ → ℕ → Prop where
  | here {start : ℕ} (hlt : start < blocksize) : Reached test data blocksize start start
  | next {start off : ℕ} (hlt : start < blocksize) (htest : test start = false)
      (h : Reached test data blocksize (start + dSize data start) off) :
      Reached test data blocksize start off

def WellLinked (test : ℕ → Bool) (data : ℕ → ℕ) (blocksize : ℕ) : Prop :=
  ∀ off, Reached test data blocksize 0 off →
    EntryInside data blocksize off ∧ (test off = false → 0 < dSize data off)

section Scan

variable {test : ℕ → Bool} {data : ℕ → ℕ} {blocksize n start off : ℕ}

theorem scanExt2_stuck (hlt : start < blocksize) (htest : test start = false)
    (hzero : dSize data start = 0) (n : ℕ) : scanExt2 test data blocksize n start = none := by
  induction n with
  | zero => rfl
  | succ n ih => rw [scanExt2, if_pos hlt, htest, if_neg (by decide), hzero, Nat.add_zero, ih]; rfl

theorem scanExt2_visits {visited : List ℕ} {found : Option ℕ}
    (h : scanExt2 test data blocksize n start = some (visited, found))
    (hr : Reached test data blocksize start off) :
    off ∈ visited ∧ (test off = false → 0 < dSize data off) := by
  induction hr generalizing n visited found with
  | @here start hlt =>
    cases n with
    | zero => cases h
    | succ n =>
      constructor
      · rw [scanExt2, if_pos hlt] at h
        split_ifs at h with htest
        · cases h
          exact List.mem_singleton.mpr rfl
        · obtain ⟨r, -, he⟩ := Option.map_eq_some_iff.mp h
          cases he
          exact List.mem_cons_self
      · intro htest
        by_contra hzero
        rw [scanExt2_stuck hlt htest (by omega)] at h
        cases h
  | next hlt htest _ ih =>
    cases n with
    | zero => cases h
    | succ n =>
      rw [scanExt2, if_pos hlt, htest, if_neg (by decide)] at h
      obtain ⟨r, hrest, he⟩ := Option.map_eq_some_iff.mp h
      cases he
      exact (ih hrest).imp_left (List.mem_cons_of_mem _)

theorem scanExt2_unique {m : ℕ} {visited visited' : List ℕ} {found found' : Option ℕ}
    (h : scanExt2 test data blocksize n start = some (visited, found))
    (h' : scanExt2 test data blocksize m start = some (visited', found')) : visited = visited' := by
  induction n generalizing start m visited visited' found found' with
  | zero => cases h
  | succ n ih =>
    cases m with
    | zero => cases h'
    | succ m =>
      rw [scanExt2] at h h'
      split_ifs at h h'
      · cases h
        cases h'
        rfl
      · obtain ⟨r, hr, he⟩ := Option.map_eq_some_iff.mp h
        obtain ⟨r', hr', he'⟩ := Option.map_eq_some_iff.mp h'
        cases he
        cases he'
        rw [ih hr hr']
      · cases h
        cases h'
        rfl

theorem scanExt2_ends (hn : blocksize ≤ start + n)
    (h : ∀ off, Reached test data blocksize start off → test off = false → 0 < dSize data off) :
    ∃ visited found, scanExt2 test data blocksize (n + 1) start = some (visited, found) ∧
      ∀ off ∈ visited, Reached test data blocksize start off := by
  induction n generalizing start with
  | zero =>
    rw [scanExt2, if_neg (by omega)]
    exact ⟨[], none, rfl, fun off hoff => absurd hoff List.not_mem_nil⟩
  | succ n ih =>
    rw [scanExt2]
    by_cases hlt : start < blocksize
    · rw [if_pos hlt]
      cases htest : test start with
      | true =>
        refine ⟨_, _, rfl, fun off hoff => ?_⟩
        obtain rfl := List.mem_singleton.mp hoff
        exact .here hlt
      | false =>
        have hpos := h start (.here hlt) htest
        obtain ⟨visited, found, hrest, hall⟩ := ih (by omega)
          fun off hoff => h off (.next hlt htest hoff)
        refine ⟨start :: visited, found, by rw [if_neg (by decide), hrest]; rfl, fun off hoff => ?_⟩
        rcases List.mem_cons.mp hoff with rfl | hoff
        · exact .here hlt
        · exact .next hlt htest (hall off hoff)
    · rw [if_neg hlt]
      exact ⟨[], none, rfl, fun off hoff => absurd hoff List.not_mem_nil⟩

theorem scanSafe_iff : ScanSafe test data blocksize ↔ WellLinked test data blocksize := by
  constructor
  · rintro ⟨n, visited, found, h, hin⟩ off hr
    obtain ⟨hmem, hpos⟩ := scanExt2_visits h hr
    exact ⟨hin off hmem, hpos⟩
  · intro h
    obtain ⟨visited, found, hs, hall⟩ := scanExt2_ends (Nat.le_add_left blocksize 0)
      fun off hr => (h off hr).2
    exact ⟨_, visited, found, hs, fun off hoff => (h off (hall off hoff)).1⟩

end Scan

section List

variable {body : ℕ → FsProg Unit} {s : FsSys} {page blocksize : ℕ}

def LeavesPage (body : ℕ → FsProg Unit) (page : ℕ) : Prop := ∀ off s r t, page < s.brk →
  body off s = some (r, t) → page < t.brk ∧ (t.pages page).pData = (s.pages page).pData

def WorkReturns (body : ℕ → FsProg Unit) (s : FsSys) (page blocksize : ℕ) : Prop :=
  ∀ n visited found, scanExt2 (fun _ => false) (s.pages page).pData blocksize n 0 =
    some (visited, found) → ∃ t, Prog.forEach body visited s = some (.ok (), t)

theorem listPageExt2_run (hbody : LeavesPage body page) (n : ℕ) (start : ℕ) (hs : page < s.brk)
    (visited : List ℕ) (t : FsSys) :
    listPageExt2 body page blocksize n start s = some (.ok visited, t) ↔
      (∃ found, scanExt2 (fun _ => false) (s.pages page).pData blocksize n start =
        some (visited, found)) ∧ Prog.forEach body visited s = some (.ok (), t) := by
  induction n generalizing start s visited with
  | zero => exact iff_of_false (fun h => by cases h) fun ⟨⟨_, h⟩, _⟩ => by cases h
  | succ n ih =>
    rw [listPageExt2, scanExt2]
    by_cases hlt : start < blocksize
    · rw [if_pos hlt, if_pos hlt, if_neg (by decide)]
      constructor
      · intro h
        obtain ⟨_, u, hu, h⟩ := Prog.bind_ok_cases h
        obtain ⟨hlt', hdata⟩ := hbody start s _ u hs hu
        rw [Prog.get_bind_run] at h
        obtain ⟨rest, v, hrest, h⟩ := Prog.bind_ok_cases h
        cases h
        obtain ⟨⟨found, hscan⟩, hwork⟩ := (ih _ hlt' rest).mp hrest
        rw [hdata] at hscan
        refine ⟨⟨found, by rw [hscan]; rfl⟩, ?_⟩
        rw [Prog.forEach, Prog.bind_ok hu]
        exact hwork
      · rintro ⟨⟨found, hscan⟩, hwork⟩
        obtain ⟨r, hr, he⟩ := Option.map_eq_some_iff.mp hscan
        cases he
        rw [Prog.forEach] at hwork
        obtain ⟨_, u, hu, hwork⟩ := Prog.bind_ok_cases hwork
        obtain ⟨hlt', hdata⟩ := hbody start s _ u hs hu
        rw [← hdata] at hr
        rw [Prog.bind_ok hu, Prog.get_bind_run,
          Prog.bind_ok ((ih _ hlt' r.1).mpr ⟨⟨r.2, hr⟩, hwork⟩)]
        rfl
    · rw [if_neg hlt, if_neg hlt]
      constructor
      · intro h
        cases h
        exact ⟨⟨none, rfl⟩, rfl⟩
      · rintro ⟨⟨found, hscan⟩, hwork⟩
        cases hscan
        cases hwork
        rfl

theorem listSafe_iff (hbody : LeavesPage body page) (hs : page < s.brk) :
    ListSafe body s page blocksize ↔
      WellLinked (fun _ => false) (s.pages page).pData blocksize ∧
        WorkReturns body s page blocksize := by
  constructor
  · rintro ⟨n, visited, t, h, hin⟩
    obtain ⟨⟨found, hscan⟩, hwork⟩ := (listPageExt2_run hbody n 0 hs visited t).mp h
    refine ⟨scanSafe_iff.mp ⟨n, visited, found, hscan, hin⟩, fun m visited' found' hscan' => ?_⟩
    rw [scanExt2_unique hscan' hscan]
    exact ⟨t, hwork⟩
  · rintro ⟨hlinked, hwork⟩
    obtain ⟨n, visited, found, hscan, hin⟩ := scanSafe_iff.mpr hlinked
    obtain ⟨t, ht⟩ := hwork n visited found hscan
    exact ⟨n, visited, t, (listPageExt2_run hbody n 0 hs visited t).mpr ⟨⟨found, hscan⟩, ht⟩, hin⟩

end List

section Work

variable (env : FsEnv) {s₀ : FsSys}

theorem readInto_quiet (data : ℕ → ℕ) (addr count : ℕ) :
    Prog.Stays (Quiet s₀) (readInto env data addr count) := by
  refine (sdReadBlock_quiet env addr count).bind fun buf _ => ?_
  cases buf with
  | none => exact .pure trivial
  | some _ => exact .pure trivial

theorem pageSec_quiet (blocksize : ℕ) (curPage : ℤ) (pageaddr : ℕ → ℕ) :
    Prog.Stays (Quiet s₀) (pageSec env blocksize curPage pageaddr) := by
  rw [pageSec]
  dsimp only
  split_ifs
  · exact .pure trivial
  · exact (readInto_quiet env _ _ _).bind fun _ _ => .pure trivial
  · exact (readInto_quiet env _ _ _).bind fun _ _ =>
      (readInto_quiet env _ _ _).bind fun _ _ => .pure trivial
  · exact (readInto_quiet env _ _ _).bind fun _ _ =>
      (readInto_quiet env _ _ _).bind fun _ _ =>
        (readInto_quiet env _ _ _).bind fun _ _ => .pure trivial
  · exact .pure trivial

theorem findPageSecExt2_quiet (node : ℕ) (curPage : ℤ) (pageaddr : ℕ → ℕ) :
    Prog.Stays (Quiet s₀) (findPageSecExt2 env node curPage pageaddr) := by
  refine Prog.Ensures.get.bind fun s _ => (kmalloc_quiet env).bind fun p _ => ?_
  cases p with
  | none => exact .pure trivial
  | some data =>
    refine (pageSec_quiet env _ _ _).bind fun ret _ => ?_
    exact Prog.Ensures.bind (stays_quiet fun s => .of_eq le_rfl rfl rfl rfl rfl) fun _ _ =>
      .pure trivial

theorem Quiet.appendMap {s : FsSys} (h : Quiet s₀ s) {map : ℕ} (hmap : s₀.brk ≤ map)
    (node addr : ℕ) : Quiet s₀ (appendMap node map addr s) := by
  refine ⟨h.brk, h.sbs, fun m hm => ?_, h.pages, h.dirty, h.sectors⟩
  rw [← h.maps m hm]
  exact Function.update_of_ne (hm.trans_le hmap).ne _ _

theorem buildMapExt2_quiet (node : ℕ) (blockAddr : ℕ → ℕ) (is : List ℕ) :
    Prog.Stays (Quiet s₀) (buildMapExt2 env node blockAddr is) := by
  induction is with
  | nil => exact .pure trivial
  | cons i is ih =>
    refine (kmalloc_quiet env).bind fun p hp => ?_
    cases p with
    | none => exact .throw
    | some map =>
      refine (findPageSecExt2_quiet env _ _ _).bind fun addr _ => ?_
      exact Prog.Ensures.bind (.modify fun s hs => hs.appendMap (hp map rfl) node addr)
        fun _ _ => ih

theorem allocInodeExt2_quiet (info : InfoExt2) (sb ino size : ℕ) (isdir : Bool) :
    Prog.Stays (Quiet s₀) (allocInodeExt2 env info sb ino size isdir) := by
  refine (kmalloc_quiet env).bind fun p _ => ?_
  cases p with
  | none => exact .throw
  | some _ =>
    refine (kmalloc_quiet env).bind fun p _ => ?_
    cases p with
    | none => exact .throw
    | some ret =>
      refine Prog.Ensures.bind (stays_quiet fun s => .of_eq le_rfl rfl rfl rfl rfl) fun _ _ => ?_
      refine Prog.Ensures.get.bind fun s _ => ?_
      dsimp only
      refine (sdReadBlock_quiet env _ _).bind fun buf _ => ?_
      cases buf with
      | none => exact .throw
      | some buf =>
        refine (sdReadBlock_quiet env _ _).bind fun buf _ => ?_
        cases buf with
        | none => exact .throw
        | some buf =>
          refine Prog.Ensures.bind (stays_quiet fun s => .of_eq le_rfl rfl rfl rfl rfl)
            fun _ _ => ?_
          refine (buildMapExt2_quiet env _ _ _).bind fun _ _ => ?_
          refine (addToICache_quiet ret).bind fun room _ => ?_
          split_ifs
          · exact .pure trivial
          · exact .throw

theorem listEntryExt2_leaves (info : InfoExt2) (entry page : ℕ) :
    LeavesPage (listEntryExt2 env info entry page) page := by
  intro off s r t hlt h
  have hquiet : Prog.Stays (Quiet s) (listEntryExt2 env info entry page off) := by
    refine Prog.Ensures.get.bind fun s _ => ?_
    refine (follow_ensures (allocInodeExt2_quiet env _ _ _ _ _)).bind fun node _ => ?_
    refine (follow_ensures (allocDentryFat32_quiet env _ _ _ _)).bind fun cur _ => ?_
    exact stays_quiet fun s => .of_eq le_rfl rfl rfl rfl rfl
  obtain ⟨hq, -⟩ := hquiet s r t (.refl s) h
  exact ⟨hlt.trans_le hq.brk, by rw [hq.pages page hlt]⟩

end Work

theorem ext2Scans_iff (env : FsEnv) (info : InfoExt2) (entry : ℕ) (name : List ℕ) {s : FsSys}
    {page : ℕ} (blocksize : ℕ) (hs : page < s.brk) :
    (ScanSafe (nameMatches name (s.pages page).pData) (s.pages page).pData blocksize ↔
      WellLinked (nameMatches name (s.pages page).pData) (s.pages page).pData blocksize) ∧
    (ListSafe (listEntryExt2 env info entry page) s page blocksize ↔
      WellLinked (fun _ => false) (s.pages page).pData blocksize ∧
        WorkReturns (listEntryExt2 env info entry page) s page blocksize) :=
  ⟨scanSafe_iff, listSafe_iff (listEntryExt2_leaves env info entry page) hs⟩

/-- A block with two entries, "a" of twelve bytes and "b" that fills the rest. -/
def twoEntries : ℕ → ℕ := fun o =>
  [1, 0, 0, 0, 12, 0, 1, 1, 97, 0, 0, 0, 2, 0, 0, 0, 244, 3, 1, 2, 98].getD o 0

def twoEntryBlock : FsSys :=
  { blankSys with brk := 1, pages := fun _ => ⟨false, twoEntries, 0, 0, 0⟩ }

def smallInfo : InfoExt2 := ⟨0, 0, 8, 128⟩

theorem twoEntries_linked (test : ℕ → Bool) : WellLinked test twoEntries 1024 := by
  intro off h
  have hend : ¬ 0 + dSize twoEntries 0 + dSize twoEntries (0 + dSize twoEntries 0) < 1024 := by
    decide
  cases h with
  | here => exact ⟨by decide, fun _ => by decide⟩
  | next _ _ h =>
    cases h with
    | here => exact ⟨by decide, fun _ => by decide⟩
    | next _ _ h =>
      cases h with
      | here hlt => exact absurd hlt hend
      | next hlt => exact absurd hlt hend

theorem twoEntries_work :
    WorkReturns (listEntryExt2 soundEnv smallInfo 0 0) twoEntryBlock 0 1024 := by
  intro n visited found h
  have htwo : scanExt2 (fun _ => false) twoEntries 1024 3 0 = some ([0, 12], none) := rfl
  rw [scanExt2_unique h htwo]
  have hrun : (Prog.forEach (listEntryExt2 soundEnv smallInfo 0 0) [0, 12] twoEntryBlock).any
      (fun out => out.1.isOk) = true := by decide +kernel
  cases hout : Prog.forEach (listEntryExt2 soundEnv smallInfo 0 0) [0, 12] twoEntryBlock with
  | none =>
    rw [hout] at hrun
    cases hrun
  | some out =>
    obtain ⟨_ | _, t⟩ := out
    · rw [hout] at hrun
      cases hrun
    · exact ⟨t, rfl⟩

theorem ext2Scans_iff_small : ScanSafe (nameMatches [98] twoEntries) twoEntries 1024 ∧
    ListSafe (listEntryExt2 soundEnv smallInfo 0 0) twoEntryBlock 0 1024 := by
  obtain ⟨h1, h2⟩ := ext2Scans_iff soundEnv smallInfo 0 [98] 1024
    (show 0 < twoEntryBlock.brk by decide)
  exact ⟨h1.mpr (twoEntries_linked _), h2.mpr ⟨twoEntries_linked _, twoEntries_work⟩⟩

/-- In a block of zeros the scans stay at the first entry for ever. -/
theorem ext2Scans_not_safe : ¬ ScanSafe (nameMatches [98] fun _ => 0) (fun _ => 0) 1024 ∧
    ¬ ListSafe (listEntryExt2 soundEnv smallInfo 0 0) { blankSys with brk := 1 } 0 1024 := by
  have hzero : ∀ test : ℕ → Bool, test 0 = false → ¬ WellLinked test (fun _ => 0) 1024 := by
    intro test htest h
    have hpos := (h 0 (.here (by decide))).2 htest
    exact absurd hpos (by decide)
  refine ⟨fun h => hzero _ (by decide) (scanSafe_iff.mp h), fun h => ?_⟩
  have hleaves := listEntryExt2_leaves soundEnv smallInfo 0 0
  exact hzero _ rfl ((listSafe_iff hleaves (by decide)).mp h).1

end OurOS.Fs
