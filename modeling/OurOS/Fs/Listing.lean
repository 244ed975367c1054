import OurOS.Fs.Selection
import OurOS.Fs.Unmoved

namespace OurOS.Fs

/-- The loading of blocks leaves the dentries and inodes alone. -/
structure SameNames (s t : FsSys) : Prop where
  brk : s.brk ≤ t.brk
  dentries : t.dentries = s.dentries
  inodes : t.inodes = s.inodes
  dCache : t.dCache = s.dCache

instance : Std.Refl SameNames := ⟨fun _ => ⟨le_rfl, rfl, rfl, rfl⟩⟩

instance : IsTrans FsSys SameNames where
  trans _ _ _ h h' := ⟨h.brk.trans h'.brk, h'.dentries.trans h.dentries, h'.inodes.trans h.inodes,
    h'.dCache.trans h.dCache⟩

theorem SameNames.frame : PageFrame SameNames where
  same _ _ h := ⟨h.brk, h.dentries, h.inodes, h.dCache⟩
  paged _ _ _ _ _ := ⟨le_rfl, rfl, rfl, rfl⟩

/-- A listing counts the dentries below `B` up, at most `N` times. -/
structure Listed (B N : ℕ) (s t : FsSys) : Prop where
  brk : s.brk ≤ t.brk
  count : ∀ d < B, ∃ k ≤ N, (t.dentries d).dCount = (s.dentries d).dCount + BitVec.ofNat 32 k
  dInode : ∀ d < B, (t.dentries d).dInode = (s.dentries d).dInode
  dataMap : ∀ n < B, (t.inodes n).iDataMap = (s.inodes n).iDataMap ∨ (t.inodes n).iDataMap = []

/-- The listing leaves the dentry `c` pinned and, where it is one below `B`, counted up. -/
structure Marked (B N : ℕ) (s t : FsSys) (c : ℕ) : Prop where
  cached : InCache t.dCache c
  pinned : (t.dentries c).dPinned = true
  count : c < B → ∃ k, 1 ≤ k ∧ k ≤ N ∧
    (t.dentries c).dCount = (s.dentries c).dCount + BitVec.ofNat 32 k

variable {B N M c : ℕ} {s t u : FsSys}

theorem Unmoved.listed (h : Unmoved B s t) : Listed B 0 s t :=
  ⟨h.brk, fun d hd => ⟨0, le_rfl, by rw [h.dentry d hd]; simp⟩, fun d hd => by rw [h.dentry d hd],
    h.dataMap⟩

theorem Listed.trans (h : Listed B N s t) (h' : Listed B M t u) : Listed B (N + M) s u where
  brk := h.brk.trans h'.brk
  count d hd := by
    obtain ⟨k, hk, e⟩ := h.count d hd
    obtain ⟨k', hk', e'⟩ := h'.count d hd
    exact ⟨k + k', Nat.add_le_add hk hk', by rw [e', e, BitVec.ofNat_add, BitVec.add_assoc]⟩
  dInode d hd := (h'.dInode d hd).trans (h.dInode d hd)
  dataMap n hn := (h'.dataMap n hn).elim (fun e => e ▸ h.dataMap n hn) .inr

theorem Listed.mono (h : Listed B N s t) (hle : N ≤ M) : Listed B M s t :=
  { h with
    count := fun d hd => by
      obtain ⟨k, hk, e⟩ := h.count d hd
      exact ⟨k, hk.trans hle, e⟩ }

theorem Listed.marked (h : Listed B N s t) (h' : Marked B M t u c) : Marked B (N + M) s u c where
  cached := h'.cached
  pinned := h'.pinned
  count hc := by
    obtain ⟨k, hk, e⟩ := h.count c hc
    obtain ⟨k', h1, hk', e'⟩ := h'.count hc
    exact ⟨k + k', by omega, by omega, by rw [e', e, BitVec.ofNat_add, BitVec.add_assoc]⟩

theorem Marked.of_sameNames (h : Marked B N s t c) (hs : SameNames t u) : Marked B N s u c where
  cached := by
    rw [hs.dCache]
    exact h.cached
  pinned := by
    rw [hs.dentries]
    exact h.pinned
  count := by
    rw [hs.dentries]
    exact h.count

theorem Marked.mono (h : Marked B N s t c) (hle : N ≤ M) : Marked B M s t c :=
  { h with
    count := fun hc => by
      obtain ⟨k, h1, hk, e⟩ := h.count hc
      exact ⟨k, h1, hk.trans hle, e⟩ }

/-- The mark can be seen on a dentry that was in the cache, and on one that was not. -/
theorem Marked.seen (h : Marked s.brk N s t c) (hN : N < uintRange)
    (hcached : ∀ d, InCache s.dCache d → d < s.brk) :
    InCache s.dCache c ∧ (t.dentries c).dCount ≠ (s.dentries c).dCount ∨
      ¬ InCache s.dCache c ∧ (t.dentries c).dPinned = true := by
  by_cases hc : InCache s.dCache c
  · refine .inl ⟨hc, fun e => ?_⟩
    obtain ⟨k, h1, h2, hcount⟩ := h.count (hcached c hc)
    rw [e, left_eq_add, ← BitVec.toNat_inj] at hcount
    simp only [uintRange] at hN
    simp at hcount
    omega
  · exact .inr ⟨hc, h.pinned⟩

theorem SameNames.listed (h : SameNames s t) : Listed B 0 s t :=
  ⟨h.brk, fun d _ => ⟨0, le_rfl, by rw [h.dentries]; simp⟩, fun d _ => by rw [h.dentries],
    fun n _ => .inl (by rw [h.inodes])⟩

section Pin

theorem pinned_dentry (c : ℕ) (isdir : Bool) (s : FsSys) (d : ℕ) :
    (pinned c isdir s).dentries d = { s.dentries d with
      dPinned := (s.dentries d).dPinned || decide (d = c)
      dCount := ((pinned c isdir s).dentries d).dCount } := by
  by_cases e : d = c
  · subst e
    simp [pinned, dIncCount, FsSys.setDentry, FsSys.setInode]
  · simp [pinned, dIncCount, FsSys.setDentry, FsSys.setInode, e]

theorem pinned_inode (c : ℕ) (isdir : Bool) (s : FsSys) (n : ℕ) :
    (pinned c isdir s).inodes n = { s.inodes n with
      iPinned := (s.inodes n).iPinned || decide (n = (s.dentries c).dInode)
      iIsdir := ((pinned c isdir s).inodes n).iIsdir } := by
  by_cases e : n = (s.dentries c).dInode
  · subst e
    simp [pinned, dIncCount, FsSys.setDentry, FsSys.setInode]
  · simp [pinned, dIncCount, FsSys.setDentry, FsSys.setInode, e]

theorem pinned_dCount (c : ℕ) (isdir : Bool) (s : FsSys) (d : ℕ) :
    ((pinned c isdir s).dentries d).dCount =
      if d = c then (s.dentries d).dCount + 1 else (s.dentries d).dCount := by
  by_cases e : d = c
  · subst e
    simp [pinned, dIncCount, FsSys.setDentry, FsSys.setInode]
  · simp [pinned, dIncCount, FsSys.setDentry, FsSys.setInode, e]

@[simp] theorem pinned_brk (c : ℕ) (isdir : Bool) (s : FsSys) : (pinned c isdir s).brk = s.brk := by
  simp [pinned, dIncCount, FsSys.setDentry, FsSys.setInode]

@[simp] theorem pinned_dHash (c : ℕ) (isdir : Bool) (s : FsSys) :
    (pinned c isdir s).dCache.hash = s.dCache.hash := by
  simp [pinned, dIncCount, FsSys.setDentry, FsSys.setInode, Fscache.touch]

@[simp] theorem pinned_dLru (c : ℕ) (isdir : Bool) (s : FsSys) :
    (pinned c isdir s).dCache.lru = c :: s.dCache.lru.erase c := by
  simp [pinned, dIncCount, FsSys.setDentry, FsSys.setInode, Fscache.touch]

@[simp] theorem pinned_iCache (c : ℕ) (isdir : Bool) (s : FsSys) :
    (pinned c isdir s).iCache = s.iCache := by
  simp [pinned, dIncCount, FsSys.setDentry, FsSys.setInode]

@[simp] theorem pinned_sbs (c : ℕ) (isdir : Bool) (s : FsSys) : (pinned c isdir s).sbs = s.sbs := by
  simp [pinned, dIncCount, FsSys.setDentry, FsSys.setInode]

@[simp] theorem pinned_inCache (c : ℕ) (isdir : Bool) (s : FsSys) (d : ℕ) :
    InCache (pinned c isdir s).dCache d ↔ InCache s.dCache d := by
  rw [InCache, InCache, pinned_dHash]

theorem pinned_marks (isdir : Bool) (hc : InCache s.dCache c) :
    Listed B 1 s (pinned c isdir s) ∧ Marked B 1 s (pinned c isdir s) c := by
  refine ⟨⟨?_, fun d _ => ?_, fun d _ => ?_, fun n _ => .inl ?_⟩, ?_, ?_, fun _ => ?_⟩
  · rw [pinned_brk]
  · rw [pinned_dCount]
    split_ifs
    · exact ⟨1, le_rfl, rfl⟩
    · exact ⟨0, Nat.zero_le _, (BitVec.add_zero _).symm⟩
  · rw [pinned_dentry]
  · rw [pinned_inode]
  · rw [pinned_inCache]
    exact hc
  · rw [pinned_dentry]
    simp
  · rw [pinned_dCount, if_pos rfl]
    exact ⟨1, le_rfl, le_rfl, rfl⟩

end Pin

section Run

variable {env : FsEnv} {dir page off blksize : ℕ}

theorem listSfn_cases {r : Except ℕ Unit} (h : listSfn env dir page off s = some (r, t)) :
    r = .ok () ∧ ∃ d u, t = pinned d (sfnAttr (s.pages page).pData off == sfnAttrDir) u ∧
      (lookupDCache s dir (sfnName (s.pages page).pData off) = some d ∧ u = s ∨
        lookupDCache s dir (sfnName (s.pages page).pData off) = none ∧
          readDentryFromSfn env (s.pages page).pData off dir (sfnName (s.pages page).pData off) s =
            some (.ok d, u)) := by
  rw [listSfn, Prog.get_bind_run] at h
  dsimp only at h
  cases hlook : lookupDCache s dir (sfnName (s.pages page).pData off) with
  | some d =>
    simp only [hlook] at h
    cases h
    exact ⟨rfl, d, s, rfl, .inl ⟨rfl, rfl⟩⟩
  | none =>
    simp only [hlook] at h
    rcases Prog.bind_cases h with ⟨d, u, h1, h2⟩ | ⟨e, h1, -⟩
    · obtain ⟨_, hr, h1⟩ := follow_cases h1
      cases hr
      cases h2
      exact ⟨rfl, d, u, rfl, .inr ⟨rfl, h1⟩⟩
    · obtain ⟨_, hr, -⟩ := follow_cases h1
      cases hr

theorem listSfn_marks {r : Except ℕ Unit} (hB : B ≤ s.brk)
    (h : listSfn env dir page off s = some (r, t)) :
    r = .ok () ∧ Listed B 1 s t ∧ ∃ c, Marked B 1 s t c := by
  obtain ⟨hr, d, u, rfl, hcase⟩ := listSfn_cases h
  refine ⟨hr, ?_⟩
  rcases hcase with ⟨hlook, rfl⟩ | ⟨-, hread⟩
  · obtain ⟨h1, h2⟩ := pinned_marks (B := B) (sfnAttr (u.pages page).pData off == sfnAttrDir)
      (⟨_, List.mem_of_find?_eq_some hlook⟩ : InCache u.dCache d)
    exact ⟨h1, d, h2⟩
  · obtain ⟨h1, h2⟩ := Unmoved.readDentryFromSfn hB hread
    obtain ⟨h3, h4⟩ := pinned_marks (B := B) (sfnAttr (s.pages page).pData off == sfnAttrDir)
      (h2 d rfl).2
    have h5 := h1.listed.trans h3
    have h6 := h1.listed.marked h4
    rw [Nat.zero_add] at h5 h6
    exact ⟨h5, d, h6⟩

theorem listEntry_noMemory (hmem : env.kmallocFails s.brk = true) :
    listEntry env dir page off s = none := by
  rw [listEntry, Prog.get_bind_run, allocName, bind_assoc, Prog.bind_ok (kmalloc_null hmem)]
  rfl

theorem listEntry_dotted (hmem : env.kmallocFails s.brk = false)
    (hdot : isDotted (sfnName (s.pages page).pData off) = true) :
    listEntry env dir page off s = some (.ok (), grabbed s) := by
  rw [listEntry, Prog.get_bind_run, allocName, bind_assoc, Prog.bind_ok (kmalloc_grabs hmem)]
  simp only [pure_bind, if_pos (isDotted_iff.mp hdot)]
  rfl

theorem listEntry_listed (hmem : env.kmallocFails s.brk = false)
    (hdot : isDotted (sfnName (s.pages page).pData off) = false) :
    listEntry env dir page off s = listSfn env dir page off (grabbed s) := by
  have hnot : ¬ (compareFat32 (sfnName (s.pages page).pData off) dotName = 0 ∨
      compareFat32 (sfnName (s.pages page).pData off) dotdotName = 0) := by
    rw [← isDotted_iff, hdot]
    exact Bool.false_ne_true
  rw [listEntry, Prog.get_bind_run, allocName, bind_assoc, Prog.bind_ok (kmalloc_grabs hmem)]
  simp only [pure_bind, if_neg hnot]

theorem listEntry_cases {r : Except ℕ Unit} (h : listEntry env dir page off s = some (r, t)) :
    env.kmallocFails s.brk = false ∧
      (isDotted (sfnName (s.pages page).pData off) = true ∧ r = .ok () ∧ t = grabbed s ∨
        isDotted (sfnName (s.pages page).pData off) = false ∧
          listSfn env dir page off (grabbed s) = some (r, t)) := by
  cases hmem : env.kmallocFails s.brk with
  | true =>
    rw [listEntry_noMemory hmem] at h
    cases h
  | false =>
    refine ⟨rfl, ?_⟩
    cases hdot : isDotted (sfnName (s.pages page).pData off) with
    | true =>
      rw [listEntry_dotted hmem hdot] at h
      cases h
      exact .inl ⟨rfl, rfl, rfl⟩
    | false =>
      rw [listEntry_listed hmem hdot] at h
      exact .inr ⟨rfl, h⟩

theorem grabbed_names (s : FsSys) : SameNames s (grabbed s) := ⟨Nat.le_succ _, rfl, rfl, rfl⟩

theorem listEntry_marks {r : Except ℕ Unit} (hB : B ≤ s.brk)
    (h : listEntry env dir page off s = some (r, t)) : r = .ok () ∧
      (isDotted (sfnName (s.pages page).pData off) = true ∧ SameNames s t ∨
        isDotted (sfnName (s.pages page).pData off) = false ∧
          Listed B 1 s t ∧ ∃ c, Marked B 1 s t c) := by
  obtain ⟨-, ⟨hdot, rfl, rfl⟩ | ⟨hdot, hsfn⟩⟩ := listEntry_cases h
  · exact ⟨rfl, .inl ⟨hdot, grabbed_names s⟩⟩
  · obtain ⟨hr, h1, c, h2⟩ := listSfn_marks (hB.trans (grabbed_names s).brk) hsfn
    have h3 := (grabbed_names s).listed.trans h1
    have h4 := (grabbed_names s).listed.marked h2
    rw [Nat.zero_add] at h3 h4
    exact ⟨hr, .inr ⟨hdot, h3, c, h4⟩⟩

variable {cnt : ℕ} {I : FsSys → Prop} {data : ℕ → ℕ}

theorem listPage_marks (hI : Steady env cnt I) (hdata : ∀ s, I s → (s.pages page).pData = data)
    {r : Except ℕ Unit} {offs : List ℕ} (hs : I s) (hB : B ≤ s.brk)
    (h : Prog.forEach (listEntry env dir page) offs s = some (r, t)) : r = .ok () ∧
      (offs.filter (fun off => !isDotted (sfnName data off)) = [] ∧ SameNames s t ∨
        Listed B (offs.filter fun off => !isDotted (sfnName data off)).length s t ∧
          ∃ c, Marked B (offs.filter fun off => !isDotted (sfnName data off)).length s t c) := by
  induction offs generalizing s with
  | nil =>
    cases h
    exact ⟨rfl, .inl ⟨rfl, refl _⟩⟩
  | cons off offs ih =>
    rw [Prog.forEach] at h
    rcases Prog.bind_cases h with ⟨_, u, h1, h2⟩ | ⟨e, h1, -⟩
    · have hu := (hI.listEntry dir page off _ _ _ hs h1).1
      obtain ⟨-, hcase⟩ := listEntry_marks hB h1
      rw [hdata s hs] at hcase
      rcases hcase with ⟨hdot, hsame⟩ | ⟨hdot, h3, c, h4⟩
      · rw [List.filter_cons, hdot, Bool.not_true, if_neg Bool.false_ne_true]
        obtain ⟨hr, ⟨hnil, hrest⟩ | ⟨h5, c, h6⟩⟩ := ih hu (hB.trans hsame.brk) h2
        · exact ⟨hr, .inl ⟨hnil, IsTrans.trans _ _ _ hsame hrest⟩⟩
        · have h7 := hsame.listed.trans h5
          have h8 := hsame.listed.marked h6
          rw [Nat.zero_add] at h7 h8
          exact ⟨hr, .inr ⟨h7, c, h8⟩⟩
      · rw [List.filter_cons, hdot, Bool.not_false, if_pos rfl, List.length_cons, Nat.add_comm]
        obtain ⟨hr, ⟨hnil, hrest⟩ | ⟨h5, c', h6⟩⟩ := ih hu (hB.trans h3.brk) h2
        · rw [hnil]
          exact ⟨hr, .inr ⟨h3.trans hrest.listed, c, h4.of_sameNames hrest⟩⟩
        · exact ⟨hr, .inr ⟨h3.trans h5, c', h3.marked h6⟩⟩
    · obtain ⟨hr, -⟩ := listEntry_marks hB h1
      cases hr

theorem SameSfns.filter_listed {data' : ℕ → ℕ} {offs : List ℕ} (h : SameSfns data data' offs) :
    (visibleSfn scanSkips data' offs).filter (fun off => !isDotted (sfnName data off)) =
      listedSfn data' offs := by
  rw [← h.visible, ← h.listed]
  rfl

def listedEntries (blksize : ℕ) (c : ℕ → ℕ → ℕ) (maps : List ℕ) : List (ℕ × ℕ) :=
  maps.flatMap fun m => (listedSfn (c m) (sfnOffsets blksize)).map fun off => (m, off)

theorem listedEntries_cons (m : ℕ) (data : ℕ → ℕ → ℕ) (ms : List ℕ) :
    listedEntries blksize data (m :: ms) = ((listedSfn (data m) (sfnOffsets blksize)).map fun off =>
      (m, off)) ++ listedEntries blksize data ms := rfl

variable {maps ms : List ℕ} {a : ℕ → ℕ} {c : ℕ → ℕ → ℕ} {m : ℕ}

theorem loaded_marks {r : Except ℕ Unit} (hs : Shows maps cnt a c s) (hm : m ∈ maps) (hB : B ≤ s.brk)
    (hload : getFspage env m (sectorSize * cnt) s = some (.ok page, u))
    (h : Prog.forEach (listEntry env dir page)
      (visibleSfn scanSkips (c m) (sfnOffsets (sectorSize * cnt))) u = some (r, t)) :
    r = .ok () ∧ Shows maps cnt a c t ∧
      (listedSfn (c m) (sfnOffsets (sectorSize * cnt)) = [] ∧ SameNames s t ∨
        Listed B (listedSfn (c m) (sfnOffsets (sectorSize * cnt))).length s t ∧
          ∃ k, Marked B (listedSfn (c m) (sfnOffsets (sectorSize * cnt))).length s t k) := by
  obtain ⟨hsu, hp⟩ := getFspage_shows hs (sectors_shiftRight cnt).le hload
  have hp := hp page rfl
  have hnames := SameNames.frame.getFspage env m _ _ _ _ hload
  have hI := Steady.showsPage env maps cnt a c page (u.pages page).pData
  have hu : Shows maps cnt a c u ∧ page < u.brk ∧ (u.pages page).pData = (u.pages page).pData :=
    ⟨hsu, (hsu.page m hm page hp).1, rfl⟩
  have hstays := Prog.Ensures.forEach (visibleSfn scanSkips (c m) (sfnOffsets (sectorSize * cnt)))
    fun off _ => hI.listEntry dir page off
  obtain ⟨hr, hcase⟩ := listPage_marks hI (fun _ hs => hs.2.2) hu (hB.trans hnames.brk) h
  rw [(hsu.sameSfns hm hp).filter_listed] at hcase
  refine ⟨hr, (hstays _ _ _ hu h).1.1, ?_⟩
  rcases hcase with ⟨hnil, hsame⟩ | ⟨h1, k, h2⟩
  · exact .inl ⟨hnil, IsTrans.trans _ _ _ hnames hsame⟩
  · have h3 := hnames.listed.trans h1
    have h4 := hnames.listed.marked h2
    rw [Nat.zero_add] at h3 h4
    exact .inr ⟨h3, k, h4⟩

theorem listEntries_marks {r : Except ℕ Unit} (hs : Shows maps cnt a c s) (hms : ∀ m ∈ ms, m ∈ maps)
    (hB : B ≤ s.brk) (h : listEntries env dir (sectorSize * cnt) c ms s = some (r, t)) :
    Listed B (listedEntries (sectorSize * cnt) c ms).length s t ∧
      ((∃ k, Marked B (listedEntries (sectorSize * cnt) c ms).length s t k) ∨
        SameNames s t ∧ (r = .ok () → listedEntries (sectorSize * cnt) c ms = [])) := by
  induction ms generalizing s with
  | nil =>
    cases h
    exact ⟨SameNames.listed (refl _), .inr ⟨refl _, fun _ => rfl⟩⟩
  | cons m ms ih =>
    have hm := hms m List.mem_cons_self
    rw [listedEntries_cons, List.length_append, List.length_map]
    rw [listEntries, Prog.forEach] at h
    rcases Prog.bind_cases h with ⟨_, u, h1, h2⟩ | ⟨e, h1, rfl⟩
    · obtain ⟨page, v, h3, h4⟩ := Prog.bind_ok_cases h1
      obtain ⟨-, hsu, hcase⟩ := loaded_marks hs hm hB h3 h4
      have hrest := fun hBu => ih hsu (fun k hk => hms k (List.mem_cons_of_mem _ hk)) hBu h2
      rcases hcase with ⟨hnil, hsame⟩ | ⟨h5, k, h6⟩
      · obtain ⟨h8, h9⟩ := hrest (hB.trans hsame.brk)
        rw [hnil, List.length_nil, Nat.zero_add, List.map_nil, List.nil_append]
        have h10 := hsame.listed.trans h8
        rw [Nat.zero_add] at h10
        refine ⟨h10, ?_⟩
        rcases h9 with ⟨k, hk⟩ | ⟨h11, h12⟩
        · have h13 := hsame.listed.marked hk
          rw [Nat.zero_add] at h13
          exact .inl ⟨k, h13⟩
        · exact .inr ⟨IsTrans.trans _ _ _ hsame h11, h12⟩
      · obtain ⟨h8, h9⟩ := hrest (hB.trans h5.brk)
        refine ⟨h5.trans h8, .inl ?_⟩
        rcases h9 with ⟨k', h10⟩ | ⟨hsame, -⟩
        · exact ⟨k', h5.marked h10⟩
        · exact ⟨k, (h6.of_sameNames hsame).mono (Nat.le_add_right _ _)⟩
    · rcases Prog.bind_cases h1 with ⟨page, v, h3, h4⟩ | ⟨e', h3, -⟩
      · obtain ⟨hr, -⟩ := loaded_marks hs hm hB h3 h4
        cases hr
      · have hsame := SameNames.frame.getFspage env m _ _ _ _ h3
        exact ⟨hsame.listed.mono (Nat.zero_le _), .inr ⟨hsame, fun hr => by cases hr⟩⟩

end Run

end OurOS.Fs
