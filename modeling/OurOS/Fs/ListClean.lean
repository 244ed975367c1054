import OurOS.Fs.ListDir

namespace OurOS.Fs

variable {env : FsEnv} {names : List (List ℕ)} {name : List ℕ} {dir c d k : ℕ} {s t : FsSys}

/-- From `s` to `t` the marks of what is cached are as they were, and what has entered the caches is
not marked. -/
structure Unmarked (s t : FsSys) : Prop where
  dentry : ∀ d, InCache s.dCache d → InCache t.dCache d →
    (t.dentries d).dPinned = (s.dentries d).dPinned ∧ (t.dentries d).dCount = (s.dentries d).dCount
  newDentry : ∀ d, ¬ InCache s.dCache d → InCache t.dCache d →
    (t.dentries d).dPinned = false ∧ (t.dentries d).dCount = 0
  inode : ∀ n, InCache s.iCache n → InCache t.iCache n →
    (t.inodes n).iPinned = (s.inodes n).iPinned ∧ (t.inodes n).iCount = (s.inodes n).iCount
  newInode : ∀ n, ¬ InCache s.iCache n → InCache t.iCache n →
    (t.inodes n).iPinned = false ∧ (t.inodes n).iCount = 0

/-- `list_dir_fat32` returns the dentry `dir` with a child for each listed entry, or it fails and
leaves nothing marked. -/
def ListsCleanly (env : FsEnv) (fp dir blksize : ℕ) (c : ℕ → ℕ → ℕ) (maps : List ℕ) (s : FsSys) :
    Prop :=
  (∃ t, listDirFat32 env fp s = some (.ok dir, t) ∧ InCache t.dCache dir ∧
    ∀ e ∈ listedEntries blksize c maps, ∃ k, IsChild t dir (entryName c e) k) ∨
  ∃ e t, listDirFat32 env fp s = some (.error e, t) ∧ Unmarked s t

section Fails

variable {env : FsEnv} {k : ℕ}

theorem sdFailure_later (hsd : ∀ n, k < n → env.sdFails n = false) {sd : SdCard} (hk : k < sd.accesses)
    (count : ℕ) : sdFailure env sd count = none :=
  List.find?_eq_none.mpr fun i _ => by simp [hsd (sd.accesses + i) (by omega)]

theorem flushFspage_later (hsd : ∀ n, k < n → env.sdFails n = false) {p : ℕ} {r : Except ℕ Unit}
    (hk : k < s.sd.accesses) (h : flushFspage env (some (.ok p)) s = some (r, t)) :
    r = .ok () ∧ k < t.sd.accesses := by
  rw [flushFspage, Prog.get_bind_run] at h
  dsimp only at h
  split_ifs at h with hdirt
  · have hwrite : sdWriteBlock env (s.pages p).pData (s.pages p).pSecAddr (s.pages p).pSecCnt s =
        some (.ok true, { s with sd :=
          { sector := writeSectors s.sd (s.pages p).pSecAddr (s.pages p).pData (s.pages p).pSecCnt
            accesses := s.sd.accesses + (s.pages p).pSecCnt } }) := by
      rw [sdWriteBlock, sdFailure_later hsd hk]
    rw [Prog.bind_ok hwrite] at h
    cases h
    exact ⟨rfl, hk.trans_le (Nat.le_add_right _ _)⟩
  · cases h
    exact ⟨rfl, hk⟩

theorem flushPages_later (hsd : ∀ n, k < n → env.sdFails n = false) {n : ℕ} {pages : List ℕ}
    {r : Except ℕ Bool} (hk : k < s.sd.accesses) (h : flushPages env n pages s = some (r, t)) :
    r = .ok true := by
  induction n generalizing pages s with
  | zero =>
    cases h
    rfl
  | succ n ih =>
    cases pages with
    | nil => cases h
    | cons page pages =>
      rw [flushPages] at h
      rcases Prog.bind_cases h with ⟨r', u, h1, h2⟩ | ⟨e, h1, -⟩
      · obtain ⟨r'', hr, h1⟩ := Prog.attempt_cases h1
        cases hr
        obtain ⟨rfl, hu⟩ := flushFspage_later hsd hk h1
        dsimp only at h2
        rw [Prog.modify_bind_run] at h2
        exact ih (show k < (shrinkP (freeFspage page u)).sd.accesses from hu) h2
      · obtain ⟨_, hr, -⟩ := Prog.attempt_cases h1
        cases hr

theorem pCacheRoom_later (hsd : ∀ n, k < n → env.sdFails n = false) {r : Except ℕ Bool}
    (hk : k < s.sd.accesses) (h : pCacheRoom env s = some (r, t)) : r = .ok true := by
  rw [pCacheRoom, Prog.get_bind_run] at h
  split_ifs at h
  · exact flushPages_later hsd hk h
  · cases h
    rfl

/-- Where the card fails once, at the load of a block, the error pointer is added to the cache. -/
theorem getFspage_stuck {m blksize : ℕ} (hmap : (s.maps m).mapPage = none)
    (hsize : 0 < blksize >>> sectorShift) :
    getFspage (failingAccess s.sd.accesses) m blksize s = none := by
  have hfound : sdFailure (failingAccess s.sd.accesses) s.sd (blksize >>> sectorShift) = some 0 := by
    obtain ⟨count, hcount⟩ := Nat.exists_eq_add_of_lt hsize
    rw [hcount, sdFailure, Nat.zero_add, List.range_succ_eq_map]
    exact List.find?_cons_of_pos (beq_self_eq_true _)
  have hsd (n : ℕ) (hn : s.sd.accesses < n) : (failingAccess s.sd.accesses).sdFails n = false :=
    beq_eq_false_iff_ne.mpr hn.ne'
  suffices halloc : allocFspage (failingAccess s.sd.accesses) (s.maps m).mapAddr blksize s = none by
    have hattempt : Prog.attempt (allocFspage (failingAccess s.sd.accesses) (s.maps m).mapAddr blksize)
        s = none := by rw [Prog.attempt, halloc]
    rw [getFspage, Prog.get_bind_run]
    simp only [hmap]
    exact Prog.bind_none hattempt
  have hread : sdReadBlock (failingAccess s.sd.accesses) (s.maps m).mapAddr (blksize >>> sectorShift) (grabbed (grabbed s)) =
      some (.ok none, accessed (grabbed (grabbed s)) 1) := by
    rw [sdReadBlock, show (grabbed (grabbed s)).sd = s.sd from rfl, hfound]
    rfl
  rw [allocFspage, Prog.bind_ok (kmalloc_grabs rfl)]
  dsimp only
  rw [Prog.bind_ok (kmalloc_grabs rfl)]
  dsimp only
  rw [Prog.bind_ok hread]
  dsimp only
  rw [Prog.modify_bind_run]
  cases hroom : pCacheRoom (failingAccess s.sd.accesses) ((accessed (grabbed (grabbed s)) 1).kfree s.brk) with
  | none => exact Prog.bind_none hroom
  | some out =>
    obtain ⟨r, t⟩ := out
    obtain rfl := pCacheRoom_later hsd (Nat.lt_succ_self s.sd.accesses) hroom
    rw [Prog.bind_ok hroom]
    rfl

end Fails

/-- Every block up to one that could not be loaded is in the page cache and has no visible entry. -/
def NothingVisible (s : FsSys) (blksize : ℕ) (c : ℕ → ℕ → ℕ) : List ℕ → Prop
  | [] => True
  | m :: ms => (∃ e, (s.maps m).mapPage = some (.error e)) ∨
    (∃ page, (s.maps m).mapPage = some (.ok page)) ∧
      visibleSfn scanSkips (c m) (sfnOffsets blksize) = [] ∧ NothingVisible s blksize c ms

section Environments

variable {env : FsEnv} {ms : List ℕ} {blksize : ℕ} {c : ℕ → ℕ → ℕ}

theorem listEntries_skip {m page : ℕ} (hpage : (s.maps m).mapPage = some (.ok page))
    (hnone : visibleSfn scanSkips (c m) (sfnOffsets blksize) = []) :
    listEntries env dir blksize c (m :: ms) s = listEntries env dir blksize c ms s :=
  listEntries_cons (getFspage_hit hpage blksize) (by rw [hnone]; rfl)

theorem NothingVisible.run (h : NothingVisible s blksize c ms) (env : FsEnv) (dir : ℕ) :
    listEntries env dir blksize c ms s = some (.ok (), s) ∧ listedEntries blksize c ms = [] ∨
      ∃ e, listEntries env dir blksize c ms s = some (.error e, s) := by
  induction ms with
  | nil => exact .inl ⟨rfl, rfl⟩
  | cons m ms ih =>
    rcases h with ⟨e, hpage⟩ | ⟨⟨page, hpage⟩, hnone, hrest⟩
    · have hload : getFspage env m blksize s = some (.error e, s) := by
        rw [getFspage, Prog.get_bind_run, hpage]
        rfl
      exact .inr ⟨e, Prog.bind_error (Prog.bind_error hload)⟩
    · rw [listEntries_skip hpage hnone, listedEntries_cons, listedSfn, hnone]
      exact ih hrest

theorem exists_stuck (hsize : 0 < blksize >>> sectorShift) (dir : ℕ)
    (h : ¬ NothingVisible s blksize c ms) : ∃ env, listEntries env dir blksize c ms s = none := by
  induction ms with
  | nil => exact absurd trivial h
  | cons m ms ih =>
    rw [NothingVisible, not_or] at h
    obtain ⟨herror, hvisible⟩ := h
    cases hmap : (s.maps m).mapPage with
    | none =>
      exact ⟨failingAccess s.sd.accesses, Prog.bind_none (Prog.bind_none (getFspage_stuck hmap hsize))⟩
    | some r =>
      cases r with
      | error e => exact absurd ⟨e, hmap⟩ herror
      | ok page =>
        cases hv : visibleSfn scanSkips (c m) (sfnOffsets blksize) with
        | nil =>
          obtain ⟨env, hstuck⟩ := ih fun hrest => hvisible ⟨⟨page, hmap⟩, hv, hrest⟩
          exact ⟨env, (listEntries_skip hmap hv).trans hstuck⟩
        | cons off offs =>
          refine ⟨failingCall s.brk, Prog.bind_none ((Prog.bind_ok (getFspage_hit hmap blksize)).trans ?_)⟩
          rw [hv]
          exact Prog.bind_none (listEntry_noMemory (beq_self_eq_true _))

end Environments

section List

variable {b : SuperBlock} {n : ℕ} {maps : List ℕ} {cnt : ℕ} {a : ℕ → ℕ} {c : ℕ → ℕ → ℕ} {fp : ℕ}

theorem Marked.not_unmarked {N : ℕ} (h : Marked s.brk N s t k) (hN : N < uintRange)
    (hs : SoundLists s) : ¬ Unmarked s t := by
  intro hun
  rcases h.seen hN hs.dHash with ⟨hc, hcount⟩ | ⟨hc, hpinned⟩
  · exact hcount (hun.dentry k hc h.cached).2
  · rw [(hun.newDentry k hc h.cached).1] at hpinned
    cases hpinned

theorem SameNames.unmarked (h : SameNames s t) (ht : SameTree s t) : Unmarked s t := by
  have hi : ∀ x, InCache t.iCache x ↔ InCache s.iCache x := fun x => by
    rw [InCache, InCache, ht.iHash]
  refine ⟨fun d _ _ => ?_, fun d hd hd' => ?_, fun n _ _ => ?_, fun n hn hn' => ?_⟩
  · rw [h.dentries]
    exact ⟨rfl, rfl⟩
  · rw [h.dCache] at hd'
    exact absurd hd' hd
  · rw [h.inodes]
    exact ⟨rfl, rfl⟩
  · exact absurd ((hi n).mp hn') hn

theorem listDirFat32_lists_iff (hd : DirAt b n maps cnt a c s dir) (hfp : (s.files fp).fDentry = dir)
    (ht : DirTree ((listedEntries (sectorSize * cnt) c maps).map (entryName c)) dir s)
    (hcount : (listedEntries (sectorSize * cnt) c maps).length < uintRange) :
    ListsCleanly env fp dir (sectorSize * cnt) c maps s ↔
      ListsBlocks env dir (sectorSize * cnt) c false maps s := by
  have hnames : ∀ e ∈ listedEntries (sectorSize * cnt) c maps,
      entryName c e ∈ (listedEntries (sectorSize * cnt) c maps).map (entryName c) :=
    fun e he => List.mem_map_of_mem he
  have hor := fun {r : Except ℕ Unit} {t : FsSys}
      (h : listEntries env dir (sectorSize * cnt) c maps s = some (r, t)) =>
    listEntries_or false le_rfl hd.shows ht (fun _ hm => hm) hnames h
  rw [ListsCleanly, listDirFat32_eq hd hfp]
  constructor
  · rintro (⟨t, hrun, hin, -⟩ | ⟨e, t, hrun, hun⟩)
    · obtain ⟨_, w, hlist, hret⟩ := Prog.bind_ok_cases hrun
      cases hret
      rcases hor hlist with hblocks | hgone | ⟨e, hr, -⟩
      · exact hblocks
      · exact absurd hin hgone.gone
      · cases hr
    · rcases Prog.bind_cases hrun with ⟨_, w, -, hret⟩ | ⟨e', hlist, -⟩
      · cases hret
      rcases (listEntries_marks hd.shows (fun _ hm => hm) le_rfl hlist).2 with ⟨k, hk⟩ | ⟨hsame, -⟩
      · exact absurd hun (hk.not_unmarked hcount ht.sound)
      · rcases hor hlist with hblocks | hgone | ⟨_, -, hlisted | ⟨k, hk⟩⟩
        · exact hblocks
        · exact absurd (hsame.dCache ▸ ht.cached) hgone.gone
        · cases hlisted
        · exact absurd hun (hk.not_unmarked hcount ht.sound)
  · intro hblocks
    rcases hblocks.run hd.shows ht (fun _ hm => hm) hnames with
      ⟨t, hlist, hlisted⟩ | ⟨-, e, t, hlist, h1, h2⟩
    · refine .inl ⟨t, Prog.bind_ok hlist, hlisted.tree.cached, fun e he => ?_⟩
      obtain ⟨k, hk⟩ := hlisted.listed _ (hnames e he)
      exact ⟨k, hk.toIsChild⟩
    · exact .inr ⟨e, t, Prog.bind_error hlist, h1.unmarked h2⟩

theorem listDirFat32_clean_iff (hd : DirAt b n maps cnt a c s dir) (hfp : (s.files fp).fDentry = dir)
    (ht : DirTree ((listedEntries (sectorSize * cnt) c maps).map (entryName c)) dir s)
    (hcount : (listedEntries (sectorSize * cnt) c maps).length < uintRange) (hcnt : 0 < cnt) :
    ((∀ env, ListsCleanly env fp dir (sectorSize * cnt) c maps s) ↔
      NothingVisible s (sectorSize * cnt) c maps) ∧
    ∀ env, ListsCleanly env fp dir (sectorSize * cnt) c maps s ↔
      ListsBlocks env dir (sectorSize * cnt) c false maps s := by
  refine ⟨⟨fun h => ?_, fun h env => ?_⟩, fun env => listDirFat32_lists_iff hd hfp ht hcount⟩
  · by_contra hvisible
    obtain ⟨env, hstuck⟩ := exists_stuck (by rw [sectors_shiftRight]; exact hcnt) dir hvisible
    have hnone : listDirFat32 env fp s = none := by
      rw [listDirFat32_eq hd hfp, Prog.bind_none hstuck]
    rcases h env with ⟨t, hrun, -⟩ | ⟨e, t, hrun, -⟩
    · rw [hnone] at hrun
      cases hrun
    · rw [hnone] at hrun
      cases hrun
  · rw [ListsCleanly, listDirFat32_eq hd hfp]
    rcases h.run env dir with ⟨hrun, hnil⟩ | ⟨e, hrun⟩
    · refine .inl ⟨s, Prog.bind_ok hrun, ht.cached, fun x hx => ?_⟩
      rw [hnil] at hx
      exact absurd hx List.not_mem_nil
    · exact .inr ⟨e, s, Prog.bind_error hrun, (refl s : SameNames s s).unmarked (refl s)⟩

end List

section Small

/-- The root directory has `k` entries, one file of one cluster each. -/
def crowdedDisk (k : ℕ) : SdCard where
  sector sec o :=
    let j := 16 * (sec - 1000) + o / 32
    if sec < 1000 then endedDisk.sector sec o
    else if sec < 1008 ∧ j < k then
      if o % 32 = 1 then 65 + j % 16 else shortSfn (65 + j / 16) sfnAttrWrite (3 + j) (o % 32)
    else 0
  accesses := 0

/-- The handle 3 is open on the root directory. -/
def crowdedVolume (k : ℕ) : FsSys := { treeVolume with sd := crowdedDisk k, brk := 4 }

theorem crowdedVolume_mounted (k : ℕ) : JustMounted (crowdedVolume k) := by
  have hbrk : treeVolume.brk < (crowdedVolume k).brk := show 3 < 4 by decide
  exact { treeVolume_mounted with
    root_lt := treeVolume_mounted.root_lt.trans hbrk
    iHash := fun n hn => (treeVolume_mounted.iHash n hn).trans hbrk
    iDentry := fun n d hd => by
      obtain ⟨h1, h2⟩ := treeVolume_mounted.iDentry n d hd
      exact ⟨h1.trans hbrk, h2⟩
    dLru := fun d hd => (treeVolume_mounted.dLru d hd).trans hbrk
    sRoot := fun sb => (treeVolume_mounted.sRoot sb).trans hbrk }

theorem crowdedVolume_dir (k : ℕ) : DirAt (treeVolume.sbs 0) 128 [2] 8 (fun _ => 1000)
    (blockByte (crowdedVolume k)) (crowdedVolume k) 0 := by
  refine ⟨⟨fun _ => ?_, ?_, fun _ _ => rfl, ?_, ?_, fun m _ p hp => ?_, ?_, fun _ _ _ _ => rfl,
    fun p hp => ?_⟩, rfl, rfl, rfl, fun m _ sec h1 h2 => ?_⟩
  · change 4096 >>> 9 ≤ 8
    decide
  · intro m hm
    rw [List.mem_singleton.mp hm]
    change 2 < 4
    decide
  · intro _ _
    decide
  · intro m hm k hk hne
    exact absurd ((List.mem_singleton.mp hm).trans (List.mem_singleton.mp hk).symm) hne
  · cases hp
  · intro m hm k hk _ _ _
    exact (List.mem_singleton.mp hm).trans (List.mem_singleton.mp hk).symm
  · cases hp
  · refine ⟨fun hin => ?_, fun e => ?_⟩
    · have h3 : sec < 0 + (128 + 127) / 128 := hin.2
      omega
    · have h3 : sec = 1 := e
      omega

theorem crowdedVolume_tree (k : ℕ) (names : List (List ℕ)) (hnames : ∀ name ∈ names,
    compareFat32 [47] name ≠ 0) : DirTree names 0 (crowdedVolume k) :=
  ((crowdedVolume_mounted k).inv fun _ => 0).dirTree (((crowdedVolume_mounted k).cached 0).mpr rfl)
    fun _ => hnames

theorem crowdedVolume_stuck : (listDirFat32 soundEnv 3 (crowdedVolume 64)).isNone = true := by
  decide +kernel

theorem crowdedVolume_names : ∀ name ∈ (listedEntries (sectorSize * 8)
    (blockByte (crowdedVolume 64)) [2]).map (entryName (blockByte (crowdedVolume 64))),
      compareFat32 [47] name ≠ 0 := by
  decide +kernel

theorem crowdedVolume_not_clean : ¬ ListsCleanly soundEnv 3 0 (sectorSize * 8)
    (blockByte (crowdedVolume 64)) [2] (crowdedVolume 64) := by
  have hstuck := Option.isNone_iff_eq_none.mp crowdedVolume_stuck
  rintro (⟨t, hrun, -⟩ | ⟨e, t, hrun, -⟩)
  · rw [hstuck] at hrun
    cases hrun
  · rw [hstuck] at hrun
    cases hrun

theorem listDirFat32_not_clean : ¬ ∀ (env : FsEnv) (b : SuperBlock) (n : ℕ) (maps : List ℕ) (cnt : ℕ)
    (a : ℕ → ℕ) (c : ℕ → ℕ → ℕ) (s : FsSys) (fp dir : ℕ), DirAt b n maps cnt a c s dir →
    (s.files fp).fDentry = dir →
    DirTree ((listedEntries (sectorSize * cnt) c maps).map (entryName c)) dir s →
    ListsCleanly env fp dir (sectorSize * cnt) c maps s := fun h =>
  crowdedVolume_not_clean (h soundEnv _ _ _ _ _ _ _ _ _ (crowdedVolume_dir 64) rfl
    (crowdedVolume_tree 64 _ crowdedVolume_names))

theorem crowdedVolume_listed : (listDirFat32 soundEnv 3 (crowdedVolume 2)).any (fun out =>
    decide (out.1.toOption = some 0 ∧ 0 ∈ out.2.dCache.hash (hashString [47]) ∧
      ∀ e ∈ listedEntries (sectorSize * 8) (blockByte (crowdedVolume 2)) [2],
        ∃ k ∈ (out.2.dentries 0).dSubdirs, k ∈ out.2.dCache.hash (hashString (out.2.dentries k).dName) ∧
          (out.2.dentries k).dParent = some 0 ∧
            compareFat32 (out.2.dentries k).dName (entryName (blockByte (crowdedVolume 2)) e) = 0)) =
      true := by
  decide +kernel

theorem crowdedVolume_clean : ListsCleanly soundEnv 3 0 (sectorSize * 8)
    (blockByte (crowdedVolume 2)) [2] (crowdedVolume 2) := by
  obtain ⟨⟨r, t⟩, hrun, hfacts⟩ := (Option.any_eq_true _ _).mp crowdedVolume_listed
  obtain ⟨hr, hroot, hchildren⟩ := of_decide_eq_true hfacts
  cases r with
  | error e => cases hr
  | ok d =>
    cases hr
    refine .inl ⟨t, hrun, ⟨_, hroot⟩, fun e he => ?_⟩
    obtain ⟨k, hsub, hk, hparent, hname⟩ := hchildren e he
    exact ⟨k, ⟨_, hk⟩, hparent, hsub, hname⟩

theorem listDirFat32_clean_iff_small : ¬ (∀ env, ListsCleanly env 3 0 (sectorSize * 8)
      (blockByte (crowdedVolume 2)) [2] (crowdedVolume 2)) ∧
    ListsBlocks soundEnv 0 (sectorSize * 8) (blockByte (crowdedVolume 2)) false [2] (crowdedVolume 2) ∧
    ¬ ListsBlocks soundEnv 0 (sectorSize * 8) (blockByte (crowdedVolume 64)) false [2]
      (crowdedVolume 64) := by
  have h2 := listDirFat32_clean_iff (crowdedVolume_dir 2) (show ((crowdedVolume 2).files 3).fDentry = 0
    from rfl) (crowdedVolume_tree 2 _ (by decide +kernel)) (by decide +kernel) (by decide)
  have h64 := listDirFat32_clean_iff (crowdedVolume_dir 64) (show ((crowdedVolume 64).files 3).fDentry =
    0 from rfl) (crowdedVolume_tree 64 _ crowdedVolume_names) (by decide +kernel) (by decide)
  refine ⟨fun h => ?_, (h2.2 soundEnv).mp crowdedVolume_clean,
    fun h => crowdedVolume_not_clean ((h64.2 soundEnv).mpr h)⟩
  rcases h2.1.mp h with ⟨e, he⟩ | ⟨⟨page, hpage⟩, -⟩
  · cases he
  · cases hpage

end Small

end OurOS.Fs
