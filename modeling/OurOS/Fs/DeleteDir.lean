import OurOS.Fs.Listing

namespace OurOS.Fs

/-- The error pointers in the maps are ones that `alloc_fspage` has given. -/
def LoadErrors (s : FsSys) (maps : List ℕ) : Prop :=
  ∀ m ∈ maps, ∀ e, (s.maps m).mapPage = some (.error e) → e = errorNoMemory ∨ e = errorCacheFull

section Load

variable {env : FsEnv} {maps : List ℕ} {cnt : ℕ} {a : ℕ → ℕ} {c : ℕ → ℕ → ℕ} {s t : FsSys}

theorem pCacheRoom_no_error {e : ℕ} : pCacheRoom env s ≠ some (.error e, t) := by
  have hflush : ∀ n pages (s : FsSys), flushPages env n pages s ≠ some (.error e, t) := by
    intro n
    induction n with
    | zero => exact fun _ _ h => by cases h
    | succ n ih =>
      intro pages s h
      cases pages with
      | nil => cases h
      | cons page pages =>
        rw [flushPages] at h
        rcases Prog.bind_cases h with ⟨r, u, h1, h2⟩ | ⟨e', h1, -⟩
        · cases r with
          | error _ => cases h2
          | ok _ =>
            dsimp only at h2
            rw [Prog.modify_bind_run] at h2
            exact ih _ _ h2
        · obtain ⟨_, hr, -⟩ := Prog.attempt_cases h1
          cases hr
  intro h
  rw [pCacheRoom, Prog.get_bind_run] at h
  split_ifs at h
  · rw [flushPCache, Prog.get_bind_run] at h
    exact hflush _ _ _ h
  · cases h

theorem allocFspage_error {addr blksize e : ℕ}
    (h : allocFspage env addr blksize s = some (.error e, t)) :
    e = errorNoMemory ∨ e = errorCacheFull := by
  have hroom : ∀ {u : FsSys} {k : Bool → FsProg ℕ}, (∀ room v, k room v = some (.error e, t) →
      e = errorNoMemory ∨ e = errorCacheFull) → (pCacheRoom env >>= k) u = some (.error e, t) →
      e = errorNoMemory ∨ e = errorCacheFull := by
    intro u k hk h
    rcases Prog.bind_cases h with ⟨room, v, -, h2⟩ | ⟨e', h1, -⟩
    · exact hk room v h2
    · exact absurd h1 pCacheRoom_no_error
  have hkmalloc : ∀ {u v : FsSys} {e' : ℕ}, kmalloc env u ≠ some (.error e', v) := by
    intro u v e' h
    rw [kmalloc] at h
    split at h <;> cases h
  rw [allocFspage] at h
  rcases Prog.bind_cases h with ⟨page, u, -, h⟩ | ⟨e', h1, -⟩
  · cases page with
    | none =>
      cases h
      exact .inl rfl
    | some page =>
      rcases Prog.bind_cases h with ⟨data, v, -, h⟩ | ⟨e', h1, -⟩
      · cases data with
        | none =>
          cases h
          exact .inl rfl
        | some _ =>
          rcases Prog.bind_cases h with ⟨data, w, -, h⟩ | ⟨e', h1, -⟩
          · cases data with
            | some data =>
              dsimp only at h
              rw [Prog.modify_bind_run] at h
              refine hroom (fun room v h => ?_) h
              cases room with
              | true => cases h
              | false =>
                cases h
                exact .inr rfl
            | none =>
              dsimp only at h
              rw [Prog.modify_bind_run] at h
              refine hroom (fun room v h => ?_) h
              cases room with
              | true => cases h
              | false =>
                cases h
                exact .inr rfl
          · rw [sdReadBlock] at h1
            split at h1 <;> cases h1
      · exact absurd h1 hkmalloc
  · exact absurd h1 hkmalloc

theorem getFspage_cases {m blksize : ℕ} {r : Except ℕ ℕ}
    (h : getFspage env m blksize s = some (r, t)) :
    (s.maps m).mapPage = some r ∧ t = s ∨ (s.maps m).mapPage = none ∧
      ∃ u, allocFspage env (s.maps m).mapAddr blksize s = some (r, u) ∧
        t = u.setMap m fun x => { x with mapPage := some r } := by
  rw [getFspage, Prog.get_bind_run] at h
  cases hp : (s.maps m).mapPage with
  | some r' =>
    simp only [hp] at h
    refine .inl ?_
    cases r' <;> cases h <;> exact ⟨rfl, rfl⟩
  | none =>
    simp only [hp] at h
    rcases Prog.bind_cases h with ⟨r', u, h1, h⟩ | ⟨e', h1, -⟩
    · obtain ⟨r'', hr, h1⟩ := Prog.attempt_cases h1
      cases hr
      rw [Prog.modify_bind_run] at h
      refine .inr ⟨rfl, u, ?_⟩
      cases r' <;> cases h <;> exact ⟨h1, rfl⟩
    · obtain ⟨_, hr, -⟩ := Prog.attempt_cases h1
      cases hr

theorem getFspage_error {m blksize e : ℕ} (hm : ∀ e, (s.maps m).mapPage = some (.error e) →
    e = errorNoMemory ∨ e = errorCacheFull) (h : getFspage env m blksize s = some (.error e, t)) :
    e = errorNoMemory ∨ e = errorCacheFull := by
  rcases getFspage_cases h with ⟨hp, -⟩ | ⟨-, u, halloc, -⟩
  · exact hm e hp
  · exact allocFspage_error halloc

theorem Steady.loadErrors :
    Steady env cnt fun s => Shows maps cnt a c s ∧ LoadErrors s maps := by
  refine ⟨fun s hs => hs.1.blksize, fun s t hs hq => ⟨hs.1.of_quiet hq, fun m hm e he => ?_⟩,
    fun m blksize hb s r t hs hr => ⟨⟨(getFspage_shows hs.1 hb hr).1, fun m' hm' e he => ?_⟩,
      fun _ _ => trivial⟩⟩
  · rw [hq.maps m (hs.1.small m hm)] at he
    exact hs.2 m hm e he
  · rcases getFspage_cases hr with ⟨-, rfl⟩ | ⟨-, u, halloc, rfl⟩
    · exact hs.2 m' hm' e he
    · by_cases heq : m' = m
      · subst heq
        simp only [FsSys.setMap, Function.update_self, Option.some.injEq] at he
        subst he
        exact allocFspage_error halloc
      · simp only [FsSys.setMap, Function.update_of_ne heq] at he
        rw [(allocFspage_quiet env _ _ s _ u (Quiet.refl s) halloc).1.maps m' (hs.1.small m' hm')] at he
        exact hs.2 m' hm' e he

theorem listEntries_error {dir e : ℕ} {ms : List ℕ} (hs : Shows maps cnt a c s ∧ LoadErrors s maps)
    (hms : ∀ m ∈ ms, m ∈ maps)
    (h : listEntries env dir (sectorSize * cnt) c ms s = some (.error e, t)) :
    e = errorNoMemory ∨ e = errorCacheFull := by
  have hI : Steady env cnt fun s => Shows maps cnt a c s ∧ LoadErrors s maps := Steady.loadErrors
  induction ms generalizing s with
  | nil => cases h
  | cons m ms ih =>
    have hm := hms m List.mem_cons_self
    have hload := hI.load m _ (sectors_shiftRight cnt).le
    rw [listEntries, Prog.forEach] at h
    rcases Prog.bind_cases h with ⟨_, u, h1, h2⟩ | ⟨e', h1, hr⟩
    · have hstays := hload.bind fun page _ => Prog.Ensures.forEach
        (visibleSfn scanSkips (c m) (sfnOffsets (sectorSize * cnt))) fun off _ =>
          hI.listEntry dir page off
      exact ih (hstays _ _ _ hs h1).1 (fun k hk => hms k (List.mem_cons_of_mem _ hk)) h2
    · cases hr
      rcases Prog.bind_cases h1 with ⟨page, v, h3, h4⟩ | ⟨e', h3, hr⟩
      · obtain ⟨hr, -⟩ := loaded_marks hs.1 hm le_rfl h3 h4
        cases hr
      · cases hr
        exact getFspage_error (hs.2 m hm) h3

end Load

section Delete

variable {env : FsEnv} {s t : FsSys} {node parent e : ℕ} {name : List ℕ}

theorem freeInode_dataMap {r : Except ℕ Unit} (h : freeInode node s = some (r, t)) :
    (t.inodes node).iDataMap = [] := by
  rw [freeInode, Prog.get_bind_run, Prog.modify_bind_run, Prog.modify_bind_run,
    Prog.modify_bind_run] at h
  rcases Prog.bind_cases h with ⟨_, u, h1, h2⟩ | ⟨e, h1, -⟩
  · obtain ⟨-, -, -, hinodes⟩ := freeMaps_spec h1
    cases h2
    change (u.inodes node).iDataMap = []
    rw [hinodes, clearMaps_inodes, if_pos rfl]
  · cases freeMaps_run h1

theorem deleteFat32_failed (h : deleteFat32 env node parent name s = some (.error e, t)) :
    SameNames s t ∨ (t.inodes node).iDataMap = [] := by
  have hframe := SameNames.frame
  rw [deleteFat32, Prog.get_bind_run] at h
  rcases Prog.bind_cases h with ⟨first, u, h1, h⟩ | ⟨e', h1, -⟩
  · have hu := hframe.freeClu env _ _ _ _ _ _ h1
    rcases Prog.bind_cases h with ⟨minClu, v, h2, h⟩ | ⟨e', h2, -⟩
    · have hv := IsTrans.trans _ _ _ hu (hframe.freeChain env _ _ _ _ _ _ _ h2)
      rcases Prog.bind_cases h with ⟨_, w, h3, h⟩ | ⟨e', h3, -⟩
      · have hw := IsTrans.trans _ _ _ hv (hframe.lowerNextClu env _ _ _ _ _ h3)
        rw [deleteSfn] at h
        have hend : ∀ (r' : Except ℕ Unit) {x : FsSys}, (do
            freeInode node
            Prog.ofExcept r' : FsProg Unit) x = some (.error e, t) →
            (t.inodes node).iDataMap = [] := by
          intro r' x hx
          rcases Prog.bind_cases hx with ⟨_, y, h5, h6⟩ | ⟨e', h5, -⟩
          · have hempty := freeInode_dataMap h5
            cases r' with
            | ok _ => cases h6
            | error e' =>
              cases h6
              exact hempty
          · exact freeInode_dataMap h5
        rcases Prog.bind_cases h with ⟨found, x, h4, h⟩ | ⟨e', h4, -⟩
        · cases found with
          | none => exact .inr (hend (.ok ()) h)
          | some place =>
            rcases Prog.bind_cases h with ⟨r', y, h5, h6⟩ | ⟨e', h5, -⟩
            · exact .inr (hend r' h6)
            · obtain ⟨_, hr, -⟩ := Prog.attempt_cases h5
              cases hr
        · exact .inl (IsTrans.trans _ _ _ hw (hframe.findSfn env _ _ _ _ _ _ h4))
      · exact .inl (IsTrans.trans _ _ _ hv (hframe.lowerNextClu env _ _ _ _ _ h3))
    · exact .inl (IsTrans.trans _ _ _ hu (hframe.freeChain env _ _ _ _ _ _ _ h2))
  · exact .inl (hframe.freeClu env _ _ _ _ _ _ h1)

theorem Unmoved.deleteFat32 {B : ℕ} : Prog.Keeps (Unmoved B) (deleteFat32 env node parent name) := by
  have hframe : PageFrame (Unmoved B) := Unmoved.frame.toPageFrame
  have hsfn : ∀ sb, Prog.Keeps (Unmoved B) (deleteSfn env node parent sb name) := by
    have hend : ∀ r, Prog.Keeps (Unmoved B) (do
        Fs.freeInode node
        Prog.ofExcept r : FsProg Unit) := fun r => .bind (Unmoved.freeInode node) fun _ => .ofExcept r
    refine fun sb => .bind (hframe.findSfn env _ _ _) fun r => ?_
    split
    · exact .bind (hframe.updateSfn env _ _).attempt hend
    · exact hend (.ok ())
  exact .bind .get fun s => .bind (hframe.freeClu env _ _ _) fun first =>
    .bind (hframe.freeChain env _ _ _ _) fun _ => .bind (hframe.lowerNextClu env _ _) fun _ => hsfn _

theorem fsDelete_error {fp : ℕ}
    (hdir : (s.inodes (s.dentries (s.files fp).fDentry).dInode).iIsdir = true)
    (h : fsDelete env fp s = some (.error e, t)) :
    ∃ parent u, getDentryParent env (s.files fp).fDentry s = some (parent, u) ∧
      (listDirFat32 env fp u = some (.error e, t) ∨
        ∃ d v, listDirFat32 env fp u = some (.ok d, v) ∧ (v = t ∨ ∃ p name, deleteFat32 env
          (s.dentries (s.files fp).fDentry).dInode p name v = some (.error e, t))) := by
  rw [fsDelete, Prog.get_bind_run] at h
  simp only [hdir, if_true] at h
  have hend : ∀ {parent : Except ℕ ℕ} {v : FsSys}, (do
      let s' ← Prog.get
      let p ← follow (Prog.ofExcept parent)
      deleteFat32 env (s.dentries (s.files fp).fDentry).dInode p
        (s'.dentries (s.files fp).fDentry).dName
      Prog.modify (·.setFile fp fun f => { f with fDirt := false }) : FsProg Unit) v =
        some (.error e, t) → ∃ p name, deleteFat32 env (s.dentries (s.files fp).fDentry).dInode p
          name v = some (.error e, t) := by
    intro parent v hv
    rw [Prog.get_bind_run] at hv
    rcases Prog.bind_cases hv with ⟨_, w, h3, h4⟩ | ⟨e', h3, -⟩
    · obtain ⟨p, -, h3⟩ := follow_cases h3
      cases parent with
      | error _ => cases h3
      | ok _ =>
        cases h3
        rcases Prog.bind_cases h4 with ⟨_, x, -, h5⟩ | ⟨e', h5, he⟩
        · cases h5
        · cases he
          exact ⟨_, _, h5⟩
    · obtain ⟨_, hr, -⟩ := follow_cases h3
      cases hr
  rcases Prog.bind_cases h with ⟨parent, u, h1, h2⟩ | ⟨e', h1, -⟩
  · obtain ⟨_, hr, h1⟩ := Prog.attempt_cases h1
    cases hr
    refine ⟨parent, u, h1, ?_⟩
    rcases Prog.bind_cases h2 with ⟨d, v, h3, h4⟩ | ⟨e', h3, he⟩
    · rw [Prog.get_bind_run] at h4
      refine .inr ⟨d, v, h3, ?_⟩
      split_ifs at h4
      · rcases Prog.bind_cases h4 with ⟨_, w, h5, -⟩ | ⟨e', h5, -⟩
        · cases h5
        · cases h5
          exact .inl rfl
      · exact .inr (hend h4)
    · cases he
      exact .inl h3
  · obtain ⟨_, hr, -⟩ := Prog.attempt_cases h1
    cases hr

end Delete

/-- The handle `fp` is open on the directory `dir` of the volume `b`. -/
structure OpenDirectory (b : SuperBlock) (n : ℕ) (maps : List ℕ) (cnt : ℕ) (a : ℕ → ℕ)
    (c : ℕ → ℕ → ℕ) (s : FsSys) (fp dir : ℕ) : Prop where
  content : DirAt b n maps cnt a c s dir
  handle : (s.files fp).fDentry = dir
  isdir : (s.inodes (s.dentries dir).dInode).iIsdir = true
  loads : LoadErrors s maps
  allocated : fp < s.brk ∧ dir < s.brk ∧ (s.dentries dir).dInode < s.brk
  cached : ∀ d, InCache s.dCache d → d < s.brk

/-- From `s` to `t` the disk, the directory and the marks of what is cached are as they were, and what
has entered the cache is not marked. -/
structure Untouched (dir : ℕ) (s t : FsSys) : Prop where
  disk : t.sd.sector = s.sd.sector
  blocks : dirMaps t dir = dirMaps s dir
  dentry : ∀ d, InCache s.dCache d → InCache t.dCache d →
    (t.dentries d).dPinned = (s.dentries d).dPinned ∧ (t.dentries d).dCount = (s.dentries d).dCount
  entered : ∀ d, ¬ InCache s.dCache d → InCache t.dCache d →
    (t.dentries d).dPinned = false ∧ (t.dentries d).dCount = 0
  inode : ∀ n, InCache s.iCache n → InCache t.iCache n →
    (t.inodes n).iPinned = (s.inodes n).iPinned ∧ (t.inodes n).iCount = (s.inodes n).iCount

/-- `fs_delete` refuses to delete the directory `dir` and leaves everything as it was. -/
def RefusesCleanly (env : FsEnv) (fp dir : ℕ) (s : FsSys) : Prop :=
  ∃ t, fsDelete env fp s = some (.error errorNotEmpty, t) ∧ Untouched dir s t

theorem Marked.not_untouched {N dir c : ℕ} {s t : FsSys} (h : Marked s.brk N s t c)
    (hN : N < uintRange) (hcached : ∀ d, InCache s.dCache d → d < s.brk) :
    ¬ Untouched dir s t := by
  intro hun
  rcases h.seen hN hcached with ⟨hc, hcount⟩ | ⟨hc, hpinned⟩
  · exact hcount (hun.dentry c hc h.cached).2
  · rw [(hun.entered c hc h.cached).1] at hpinned
    cases hpinned

section Refuse

variable {env : FsEnv} {b : SuperBlock} {n : ℕ} {maps : List ℕ} {cnt : ℕ} {a : ℕ → ℕ}
  {c : ℕ → ℕ → ℕ} {s t u v : FsSys} {fp dir : ℕ}

theorem OpenDirectory.after_parent (h : OpenDirectory b n maps cnt a c s fp dir) {entry : ℕ}
    {parent : Except ℕ ℕ} (hr : getDentryParent env entry s = some (parent, u)) :
    Unmoved s.brk s u ∧ Shows maps cnt a c u ∧ LoadErrors u maps := by
  have hI : Steady env cnt fun s => Shows maps cnt a c s ∧ LoadErrors s maps := Steady.loadErrors
  exact ⟨Unmoved.getDentryParent le_rfl hr,
    (hI.getDentryParent entry _ _ _ ⟨h.content.shows, h.loads⟩ hr).1⟩

theorem OpenDirectory.dirAt (h : OpenDirectory b n maps cnt a c s fp dir) (hu : Unmoved s.brk s u)
    (hs : Shows maps cnt a c u) (hmaps : dirMaps u dir = maps) : DirAt b n maps cnt a c u dir where
  shows := hs
  blocks := hmaps
  volume := by
    rw [IsVolume, hu.dentry dir h.allocated.2.1, hu.sbs, h.content.volume]
  blksize := h.content.blksize
  outside := h.content.outside

theorem OpenDirectory.maps_kept (h : OpenDirectory b n maps cnt a c s fp dir)
    (hl : Listed s.brk 0 s u) : dirMaps u dir = maps ∨ dirMaps u dir = [] := by
  have hblocks := h.content.blocks
  rw [dirMaps] at hblocks ⊢
  rw [hl.dInode dir h.allocated.2.1, ← hblocks]
  exact hl.dataMap _ h.allocated.2.2

theorem OpenDirectory.maps_lost (h : OpenDirectory b n maps cnt a c s fp dir) {N : ℕ}
    (hl : Listed s.brk N s u) (ht : Unmoved s.brk u t) (hlost : dirMaps u dir = []) :
    dirMaps t dir = [] := by
  rw [dirMaps] at hlost ⊢
  rw [hl.dInode dir h.allocated.2.1] at hlost
  rw [ht.listed.dInode dir h.allocated.2.1, hl.dInode dir h.allocated.2.1]
  exact (ht.dataMap _ h.allocated.2.2).elim (fun e => e.trans hlost) id

variable (env) in
theorem listDirFat32_nil (hmaps : dirMaps s (s.files fp).fDentry = []) :
    listDirFat32 env fp s = some (.ok (s.files fp).fDentry, s) := by
  rw [listDirFat32, Prog.get_bind_run, hmaps]
  rfl

theorem fsDelete_never_clean (h : OpenDirectory b n maps cnt a c s fp dir)
    (hvisible : listedEntries (sectorSize * cnt) c maps ≠ [])
    (hcount : (listedEntries (sectorSize * cnt) c maps).length < uintRange) :
    ¬ RefusesCleanly env fp dir s := by
  rintro ⟨t, hrun, hun⟩
  have hmaps : dirMaps t dir = maps := hun.blocks.trans h.content.blocks
  have hne : maps ≠ [] := by
    rintro rfl
    exact hvisible rfl
  have hdir := h.isdir
  rw [← h.handle] at hdir
  obtain ⟨parent, u, h1, h2⟩ := fsDelete_error hdir hrun
  rw [h.handle] at h1
  obtain ⟨hu, hshows, hloads⟩ := h.after_parent h1
  have hfp : (u.files fp).fDentry = dir := (hu.fDentry fp h.allocated.1).trans h.handle
  rcases h.maps_kept hu.listed with hkept | hlost
  · rw [listDirFat32_eq (h.dirAt hu hshows hkept) hfp] at h2
    have hB : s.brk ≤ u.brk := hu.brk
    rcases h2 with h2 | ⟨d, v, h2, h3⟩
    · rcases Prog.bind_cases h2 with ⟨_, v, -, h4⟩ | ⟨e, h3, he⟩
      · cases h4
      · cases he
        rcases listEntries_error ⟨hshows, hloads⟩ (fun m hm => hm) h3 with he | he <;> cases he
    · obtain ⟨_, w, h4, h5⟩ := Prog.bind_ok_cases h2
      cases h5
      obtain ⟨hlisted, hmarked⟩ := listEntries_marks hshows (fun m hm => hm) hB h4
      obtain ⟨x, hx⟩ := hmarked.resolve_right fun hsame => hvisible (hsame.2 rfl)
      have hl := hu.listed.trans hlisted
      have hx' := hu.listed.marked hx
      rw [Nat.zero_add] at hl hx'
      rcases h3 with rfl | ⟨p, name, h3⟩
      · exact hx'.not_untouched hcount h.cached hun
      · rcases deleteFat32_failed h3 with hsame | hfreed
        · exact (hx'.of_sameNames hsame).not_untouched hcount h.cached hun
        · have ht := Unmoved.deleteFat32 (B := s.brk) _ _ _ h3
          rw [h.handle] at hfreed
          have hlost : dirMaps t dir = [] := by
            rw [dirMaps, ht.listed.dInode dir h.allocated.2.1, hl.dInode dir h.allocated.2.1, hfreed]
          exact hne (hmaps.symm.trans hlost)
  · have hnil := listDirFat32_nil env (hfp.symm ▸ hlost)
    rcases h2 with h2 | ⟨d, v, h2, h3⟩
    · rw [hnil] at h2
      cases h2
    · rw [hnil] at h2
      cases h2
      refine hne (hmaps.symm.trans ?_)
      rcases h3 with rfl | ⟨p, name, h3⟩
      · exact hlost
      · exact h.maps_lost hu.listed (Unmoved.deleteFat32 _ _ _ h3) hlost

end Refuse

section Small

/-- The handle 9 is open on the root directory, which has one entry, "A". -/
def openRoot : FsSys :=
  { oneEntry 0x20 with
    dentries := fun _ => ⟨1, false, false, [], 0, 0, some 0, []⟩ }

theorem openRoot_open : OpenDirectory eightSectors 8 [6] 8 (fun _ => 16384)
    (blockByte (oneEntry 0x20)) openRoot 9 0 where
  content :=
    { shows := (oneEntry_dir 0x20).shows.of_quiet (.of_eq le_rfl rfl rfl rfl rfl)
      blocks := rfl
      volume := rfl
      blksize := rfl
      outside := (oneEntry_dir 0x20).outside }
  handle := rfl
  isdir := rfl
  loads m _ e he := by cases he
  allocated := by
    change 9 < 10 ∧ 0 < 10 ∧ 0 < 10
    decide
  cached d hd := by
    obtain ⟨b, hb⟩ := hd
    cases hb

theorem openRoot_listed :
    listedEntries (sectorSize * 8) (blockByte (oneEntry 0x20)) [6] = [(6, 0)] := by
  decide +kernel

theorem openRoot_pinned : (fsDelete soundEnv 9 openRoot).all (fun r =>
    (r.2.dentries 16).dPinned &&
      decide (16 ∈ r.2.dCache.hash (hashString (r.2.dentries 16).dName))) = true := by
  decide +kernel

theorem fsDelete_not_clean : ¬ ∀ (env : FsEnv) (b : SuperBlock) (n : ℕ) (maps : List ℕ) (cnt : ℕ)
    (a : ℕ → ℕ) (c : ℕ → ℕ → ℕ) (s : FsSys) (fp dir : ℕ), OpenDirectory b n maps cnt a c s fp dir →
    listedEntries (sectorSize * cnt) c maps ≠ [] → RefusesCleanly env fp dir s := by
  intro h
  obtain ⟨t, hrun, hun⟩ := h soundEnv _ _ _ _ _ _ _ _ _ openRoot_open
    (by rw [openRoot_listed]; decide)
  have hpinned := openRoot_pinned
  simp only [hrun, Option.all_some, Bool.and_eq_true, decide_eq_true_eq] at hpinned
  have hout : ¬ InCache openRoot.dCache 16 := by
    rintro ⟨b, hb⟩
    cases hb
  have hclear := (hun.entered 16 hout ⟨_, hpinned.2⟩).1
  rw [hpinned.1] at hclear
  cases hclear

theorem fsDelete_never_clean_small : ¬ RefusesCleanly soundEnv 9 0 openRoot :=
  fsDelete_never_clean openRoot_open (by rw [openRoot_listed]; decide) (by rw [openRoot_listed]; decide)

end Small

end OurOS.Fs
