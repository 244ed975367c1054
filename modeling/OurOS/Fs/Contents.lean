import OurOS.Fs.BlockBytes
import OurOS.Fs.FrameRun
import OurOS.Fs.InodeSpec

namespace OurOS.Fs

theorem setPage_self (s : FsSys) (p : ℕ) (f : FsPage → FsPage) :
    (s.setPage p f).pages p = f (s.pages p) := Function.update_self ..

theorem setPage_of_ne (s : FsSys) {p q : ℕ} (f : FsPage → FsPage) (h : q ≠ p) :
    (s.setPage p f).pages q = s.pages q := Function.update_of_ne h ..

/-- What a function leaves alone that writes no page of the state `s`: a page that is dirty after it
was so before, and only sectors of dirty pages are written. -/
structure Quiet (s t : FsSys) : Prop where
  brk : s.brk ≤ t.brk
  sbs : t.sbs = s.sbs
  maps : ∀ m < s.brk, t.maps m = s.maps m
  pages : ∀ p < s.brk, t.pages p = { s.pages p with pDirt := (t.pages p).pDirt }
  dirty : ∀ p, (t.pages p).pDirt = true → t.pages p = s.pages p
  sectors : ∀ F : ℕ → Prop, (∀ p, (s.pages p).pDirt = true →
    Clear F (s.pages p).pSecAddr (s.pages p).pSecCnt) → ∀ sec, F sec →
      t.sd.sector sec = s.sd.sector sec

namespace Quiet

variable {s₀ s t : FsSys}

theorem refl (s : FsSys) : Quiet s s :=
  ⟨le_rfl, rfl, fun _ _ => rfl, fun _ _ => rfl, fun _ _ => rfl, fun _ _ _ _ => rfl⟩

theorem trans (h : Quiet s₀ s) (h' : Quiet s t) : Quiet s₀ t where
  brk := h.brk.trans h'.brk
  sbs := h'.sbs.trans h.sbs
  maps m hm := (h'.maps m (hm.trans_le h.brk)).trans (h.maps m hm)
  pages p hp := by rw [h'.pages p (hp.trans_le h.brk), h.pages p hp]
  dirty p hp := by
    have he := h'.dirty p hp
    exact he.trans (h.dirty p (he ▸ hp))
  sectors F hF sec hs := by
    refine (h'.sectors F (fun p hp => ?_) sec hs).trans (h.sectors F hF sec hs)
    have he := h.dirty p hp
    rw [he]
    exact hF p (he ▸ hp)

theorem of_eq (hb : s.brk ≤ t.brk) (hsb : t.sbs = s.sbs) (hm : t.maps = s.maps)
    (hp : t.pages = s.pages) (hs : t.sd.sector = s.sd.sector) : Quiet s t :=
  ⟨hb, hsb, fun _ _ => by rw [hm], fun _ _ => by rw [hp], fun _ _ => by rw [hp],
    fun _ _ _ _ => by rw [hs]⟩

theorem cleaned (p : ℕ) : Quiet s (s.setPage p fun page => { page with pDirt := false }) := by
  refine ⟨le_rfl, rfl, fun _ _ => rfl, fun q _ => ?_, fun q hq => ?_, fun _ _ _ _ => rfl⟩
  · by_cases e : q = p
    · subst e
      simp [FsSys.setPage]
    · simp [FsSys.setPage, e]
  · by_cases e : q = p
    · subst e
      simp [FsSys.setPage] at hq
    · simp [FsSys.setPage, e]

theorem setPage (h : Quiet s₀ s) {p : ℕ} (hp : s₀.brk ≤ p) {page : FsPage}
    (hc : page.pDirt = false) : Quiet s₀ (s.setPage p fun _ => page) := by
  have hne : ∀ q, q ≠ p → (s.setPage p fun _ => page).pages q = s.pages q :=
    fun q hq => Function.update_of_ne hq _ _
  refine ⟨h.brk, h.sbs, h.maps, fun q hq => ?_, fun q hq => ?_, h.sectors⟩
  · rw [hne q (hq.trans_le hp).ne]
    exact h.pages q hq
  · by_cases e : q = p
    · subst e
      simp [FsSys.setPage, hc] at hq
    · rw [hne q e] at hq ⊢
      exact h.dirty q hq

theorem appendBlock (h : Quiet s₀ s) {map : ℕ} (hmap : s₀.brk ≤ map) (node : ℕ) (b : SuperBlock)
    (clu : ℕ) : Quiet s₀ (appendBlock node map b clu s) := by
  refine ⟨h.brk, h.sbs, fun m hm => ?_, h.pages, h.dirty, h.sectors⟩
  rw [← h.maps m hm]
  exact Function.update_of_ne (hm.trans_le hmap).ne _ _

theorem flushed {p n a : ℕ} (hp : (s.pages p).pDirt = true) (hn : n ≤ (s.pages p).pSecCnt) :
    Quiet s { s with sd :=
      { sector := writeSectors s.sd (s.pages p).pSecAddr (s.pages p).pData n, accesses := a } } :=
  ⟨le_rfl, rfl, fun _ _ => rfl, fun _ _ => rfl, fun _ _ => rfl,
    fun _ hF _ hs => (hF p hp).writeSectors s.sd _ hn hs⟩

end Quiet

section Quiet

variable {s₀ : FsSys} (env : FsEnv)

theorem stays_quiet {f : FsSys → FsSys} (hf : ∀ s, Quiet s (f s)) :
    Prog.Stays (Quiet s₀) (Prog.modify f : FsProg Unit) := .modify fun s hs => hs.trans (hf s)

theorem kmalloc_quiet : Prog.Ensures (Quiet s₀) (kmalloc env)
    fun p => ∀ a, p = some a → s₀.brk ≤ a := by
  intro s r t hs hr
  rw [kmalloc] at hr
  split at hr
  · cases hr
    exact ⟨hs.trans (.of_eq (Nat.le_succ _) rfl rfl rfl rfl), fun p hp a ha => by cases hp; cases ha⟩
  · cases hr
    refine ⟨hs.trans (.of_eq (Nat.le_succ _) rfl rfl rfl rfl), fun p hp a ha => ?_⟩
    cases hp
    cases ha
    exact hs.brk

theorem sdReadBlock_quiet (addr count : ℕ) :
    Prog.Stays (Quiet s₀) (sdReadBlock env addr count) := by
  intro s r t hs hr
  rw [sdReadBlock] at hr
  split at hr
  · cases hr
    exact ⟨hs.trans (.of_eq le_rfl rfl rfl rfl rfl), fun _ _ => trivial⟩
  · cases hr
    exact ⟨hs.trans (.of_eq le_rfl rfl rfl rfl rfl), fun _ _ => trivial⟩

theorem readFat_quiet (fatBaseSec cluNum : ℕ) :
    Prog.Stays (Quiet s₀) (readFat env fatBaseSec cluNum) := by
  refine (kmalloc_quiet env).bind fun p _ => ?_
  cases p with
  | none => exact .pure trivial
  | some _ =>
    refine (sdReadBlock_quiet env _ _).bind fun buf _ => ?_
    cases buf with
    | none => exact .pure trivial
    | some _ => exact .pure trivial

theorem flushFspage_quiet (page : Option (Except ℕ ℕ)) :
    Prog.Stays (Quiet s₀) (flushFspage env page) := by
  intro s r t hs hr
  rw [flushFspage, Prog.get_bind_run] at hr
  rcases page with _ | _ | p
  · cases hr
    exact ⟨hs, fun _ _ => trivial⟩
  · cases hr
  · dsimp only at hr
    split_ifs at hr with hd
    · cases hf : sdFailure env s.sd (s.pages p).pSecCnt with
      | some i =>
        have hw : Quiet s _ := .flushed (a := s.sd.accesses + i + 1) hd (sdFailure_lt env hf).le
        rw [Prog.bind_ok (by rw [sdWriteBlock, hf])] at hr
        cases hr
        exact ⟨hs.trans hw, fun _ _ => trivial⟩
      | none =>
        have hw : Quiet s _ := .flushed (a := s.sd.accesses + (s.pages p).pSecCnt) hd le_rfl
        rw [Prog.bind_ok (by rw [sdWriteBlock, hf])] at hr
        cases hr
        exact ⟨(hs.trans hw).trans (.cleaned p), fun _ _ => trivial⟩
    · cases hr
      exact ⟨hs, fun _ _ => trivial⟩

theorem freeFspage_quiet (s : FsSys) (page : ℕ) : Quiet s (freeFspage page s) :=
  (Quiet.cleaned (s := s) page).trans (.of_eq le_rfl rfl rfl rfl rfl)

theorem flushPages_quiet (n : ℕ) (pages : List ℕ) :
    Prog.Stays (Quiet s₀) (flushPages env n pages) := by
  induction n generalizing pages with
  | zero => exact .pure trivial
  | succ n ih =>
    cases pages with
    | nil => exact .stuck
    | cons p pages =>
      refine (flushFspage_quiet env _).attempt.bind fun r _ => ?_
      split
      · exact .pure trivial
      · refine (stays_quiet fun s => ?_).bind fun _ _ => ih pages
        exact (freeFspage_quiet s p).trans (.of_eq le_rfl rfl rfl rfl rfl)

theorem pCacheRoom_quiet : Prog.Stays (Quiet s₀) (pCacheRoom env) := by
  refine Prog.Ensures.get.bind fun s _ => ?_
  split_ifs
  · exact Prog.Ensures.get.bind fun s _ => flushPages_quiet env _ _
  · exact .pure trivial

theorem allocFspage_quiet (baseSec blkSize : ℕ) :
    Prog.Stays (Quiet s₀) (allocFspage env baseSec blkSize) := by
  refine (kmalloc_quiet env).bind fun p hp => ?_
  cases p with
  | none => exact .throw
  | some page =>
    have hkfree : Prog.Stays (Quiet s₀) (Prog.modify (FsSys.kfree · page)) :=
      stays_quiet fun s => .of_eq le_rfl rfl rfl rfl rfl
    refine (kmalloc_quiet env).bind fun q _ => ?_
    cases q with
    | none => exact hkfree.bind fun _ _ => .throw
    | some _ =>
      refine (sdReadBlock_quiet env _ _).bind fun data _ => ?_
      cases data with
      | none =>
        refine hkfree.bind fun _ _ => (pCacheRoom_quiet env).bind fun room _ => ?_
        split_ifs
        · exact .stuck
        · exact .throw
      | some data =>
        refine Prog.Ensures.bind (.modify fun s hs => hs.setPage (hp page rfl) rfl) fun _ _ =>
          (pCacheRoom_quiet env).bind fun room _ => ?_
        split_ifs
        · exact Prog.Ensures.bind (stays_quiet fun s => .of_eq le_rfl rfl rfl rfl rfl) fun _ _ =>
        .pure trivial
        · exact .throw

theorem freeDentry_quiet (s : FsSys) (entry : ℕ) : Quiet s (freeDentry entry s) := by
  refine .of_eq ?_ ?_ ?_ ?_ ?_ <;> cases h : (s.dentries entry).dParent <;> simp [freeDentry, h,
    FsSys.kfree, FsSys.setInode, FsSys.setDentry]

theorem freeMap_quiet (map : ℕ) : Prog.Stays (Quiet s₀) (freeMap map) := by
  have hkfree : Prog.Stays (Quiet s₀) (Prog.modify (FsSys.kfree · map)) :=
    stays_quiet fun s => .of_eq le_rfl rfl rfl rfl rfl
  refine Prog.Ensures.get.bind fun s _ => ?_
  split
  · exact hkfree
  · exact (stays_quiet fun s => freeFspage_quiet s _).bind fun _ _ => hkfree
  · exact Prog.Ensures.stuck.bind fun _ (_ : True) => hkfree

theorem freeInode_quiet (node : ℕ) : Prog.Stays (Quiet s₀) (freeInode node) := by
  have hdentries : ∀ (entries : List ℕ) (s : FsSys),
      Quiet s (entries.foldl (fun s entry => freeDentry entry s) s) := by
    intro entries
    induction entries with
    | nil => exact Quiet.refl
    | cons e es ih => exact fun s => (freeDentry_quiet s e).trans (ih _)
  refine Prog.Ensures.get.bind fun s _ => ?_
  dsimp only
  refine Prog.Ensures.bind (stays_quiet fun s => .of_eq le_rfl rfl rfl rfl rfl) fun _ _ => ?_
  refine Prog.Ensures.bind (stays_quiet fun s => hdentries _ s) fun _ _ => ?_
  refine Prog.Ensures.bind (stays_quiet fun s => .of_eq le_rfl rfl rfl rfl rfl) fun _ _ => ?_
  exact (Prog.Ensures.forEach _ fun m _ => freeMap_quiet m).bind fun _ _ =>
    stays_quiet fun s => .of_eq le_rfl rfl rfl rfl rfl

theorem addToDCache_quiet (entry : ℕ) : Prog.Stays (Quiet s₀) (addToDCache entry) := by
  refine Prog.Ensures.get.bind fun s _ => ?_
  have htail : ∀ room : Bool, Prog.Stays (Quiet s₀) (do
      if room then
        Prog.modify fun s =>
          { s with dCache := s.dCache.add (hashString (s.dentries entry).dName) entry }
      pure room : FsProg Bool) := by
    intro room
    cases room with
    | false => exact .pure trivial
    | true =>
      exact Prog.Ensures.bind (stays_quiet fun s => .of_eq le_rfl rfl rfl rfl rfl)
        fun _ _ => .pure trivial
  dsimp only
  split_ifs
  · refine Prog.Ensures.bind (Q := fun _ => True) ?_ fun room _ => htail room
    refine Prog.Ensures.get.bind fun s _ => flushLru_stays (fun d => stays_quiet fun s => ?_) _
    exact (freeDentry_quiet s d).trans (.of_eq le_rfl rfl rfl rfl rfl)
  · exact htail true

theorem addToICache_quiet (node : ℕ) : Prog.Stays (Quiet s₀) (addToICache node) := by
  refine Prog.Ensures.get.bind fun s _ => ?_
  have htail : ∀ room : Bool, Prog.Stays (Quiet s₀) (do
      if room then
        Prog.modify fun s => { s with iCache := s.iCache.add (hashInt (s.inodes node).iIno) node }
      pure room : FsProg Bool) := by
    intro room
    cases room with
    | false => exact .pure trivial
    | true =>
      exact Prog.Ensures.bind (stays_quiet fun s => .of_eq le_rfl rfl rfl rfl rfl)
        fun _ _ => .pure trivial
  dsimp only
  split_ifs
  · refine Prog.Ensures.bind (Q := fun _ => True) ?_ fun room _ => htail room
    refine Prog.Ensures.get.bind fun s _ => flushLru_stays (fun n => ?_) _
    exact (freeInode_quiet n).bind fun _ _ => stays_quiet fun s => .of_eq le_rfl rfl rfl rfl rfl
  · exact htail true

theorem buildDataMap_quiet (node : ℕ) (b : SuperBlock) (n clu : ℕ) :
    Prog.Stays (Quiet s₀) (buildDataMap env node b n clu) := by
  induction n generalizing clu with
  | zero => exact .stuck
  | succ n ih =>
    rw [buildDataMap]
    split_ifs
    · exact .pure trivial
    · refine (kmalloc_quiet env).bind fun p hp => ?_
      cases p with
      | none => exact .throw
      | some map =>
        refine Prog.Ensures.bind (.modify fun s hs => hs.appendBlock (hp map rfl) node b clu)
          fun _ _ => ?_
        refine (readFat_quiet env _ _).bind fun value _ => ?_
        split_ifs
        · exact .throw
        · exact ih value

theorem allocInodeFat32_quiet (sb baseBlkAddr size : ℕ) (isdir : Bool) :
    Prog.Stays (Quiet s₀) (allocInodeFat32 env sb baseBlkAddr size isdir) := by
  refine (kmalloc_quiet env).bind fun p _ => ?_
  cases p with
  | none => exact .throw
  | some node =>
    refine Prog.Ensures.get.bind fun s _ => ?_
    refine Prog.Ensures.bind (stays_quiet fun s => .of_eq le_rfl rfl rfl rfl rfl) fun _ _ => ?_
    refine (buildDataMap_quiet env node _ _ _).bind fun _ _ => ?_
    refine (addToICache_quiet node).bind fun room _ => ?_
    split_ifs
    · exact .pure trivial
    · exact .throw

theorem linkDentry_quiet (s : FsSys) (node entry : ℕ) (parent : Option ℕ) :
    Quiet s (linkDentry node entry parent s) := by
  cases parent <;> exact .of_eq le_rfl rfl rfl rfl rfl

theorem allocDentryFat32_quiet (sb node : ℕ) (parent : Option ℕ) (name : List ℕ) :
    Prog.Stays (Quiet s₀) (allocDentryFat32 env sb node parent name) := by
  refine (kmalloc_quiet env).bind fun p _ => ?_
  cases p with
  | none => exact .throw
  | some ret =>
    refine Prog.Ensures.bind (stays_quiet fun s => .of_eq le_rfl rfl rfl rfl rfl) fun _ _ => ?_
    refine Prog.Ensures.bind (stays_quiet fun s => linkDentry_quiet s node ret parent) fun _ _ => ?_
    refine (addToDCache_quiet ret).bind fun room _ => ?_
    split_ifs
    · exact .pure trivial
    · exact .throw

theorem openHandle_quiet (entry mode : ℕ) :
    Prog.Stays (Quiet s₀) (openHandle env entry mode) := by
  refine (kmalloc_quiet env).bind fun p _ => ?_
  cases p with
  | none => exact .throw
  | some ret =>
    refine Prog.Ensures.bind (stays_quiet fun s => .of_eq le_rfl rfl rfl rfl rfl) fun _ _ => ?_
    exact Prog.Ensures.bind (stays_quiet fun s => .of_eq le_rfl rfl rfl rfl rfl) fun _ _ =>
        .pure trivial

end Quiet

/-- The sectors of those blocks of `maps` that are not read from a page. -/
def OnDisk (maps : List ℕ) (cnt : ℕ) (s : FsSys) (sec : ℕ) : Prop :=
  ∃ m ∈ maps, (∀ p, (s.maps m).mapPage ≠ some (.ok p)) ∧ (s.maps m).mapAddr ≤ sec ∧
    sec < (s.maps m).mapAddr + cnt

/-- The blocks `maps`, of `cnt` sectors each from the addresses `a` on, hold the bytes `c`. -/
structure Shows (maps : List ℕ) (cnt : ℕ) (a : ℕ → ℕ) (c : ℕ → ℕ → ℕ) (s : FsSys) : Prop where
  blksize : ∀ sb, (s.sbs sb).sBlocksize >>> sectorShift ≤ cnt
  small : ∀ m ∈ maps, m < s.brk
  addr : ∀ m ∈ maps, (s.maps m).mapAddr = a m
  fits : ∀ m ∈ maps, a m + cnt ≤ uintRange
  apart : ∀ m ∈ maps, ∀ n ∈ maps, m ≠ n → a m + cnt ≤ a n ∨ a n + cnt ≤ a m
  page : ∀ m ∈ maps, ∀ p, (s.maps m).mapPage = some (.ok p) →
    p < s.brk ∧ (s.pages p).pSecAddr = a m ∧ (s.pages p).pSecCnt ≤ cnt
  inj : ∀ m ∈ maps, ∀ n ∈ maps, ∀ p, (s.maps m).mapPage = some (.ok p) →
    (s.maps n).mapPage = some (.ok p) → m = n
  bytes : ∀ m ∈ maps, ∀ i < sectorSize * cnt, blockByte s m i = c m i
  clean : ∀ p, (s.pages p).pDirt = true →
    Clear (OnDisk maps cnt s) (s.pages p).pSecAddr (s.pages p).pSecCnt

section Block

variable {s t : FsSys} {m p i cnt : ℕ} {F G : ℕ → Prop}

theorem blockByte_page (h : (s.maps m).mapPage = some (.ok p)) (i : ℕ) :
    blockByte s m i = (s.pages p).pData i := by
  rw [blockByte, h]

theorem blockByte_disk (h : ∀ p, (s.maps m).mapPage ≠ some (.ok p)) (i : ℕ) :
    blockByte s m i = readSectors s.sd (s.maps m).mapAddr i := by
  rcases hp : (s.maps m).mapPage with _ | _ | p
  · rw [blockByte, hp]
  · rw [blockByte, hp]
  · exact absurd hp (h p)

theorem readSectors_congr {sd sd' : SdCard} {addr : ℕ} (hf : addr + cnt ≤ uintRange)
    (h : ∀ sec, addr ≤ sec → sec < addr + cnt → sd'.sector sec = sd.sector sec)
    (hi : i < sectorSize * cnt) : readSectors sd' addr i = readSectors sd addr i := by
  have hq : i / sectorSize < cnt := Nat.div_lt_of_lt_mul hi
  generalize hk : i / sectorSize = k at hq
  rw [readSectors, readSectors, hk, Nat.mod_eq_of_lt (by omega), h _ (by omega) (by omega)]

theorem Clear.imp {addr : ℕ} (h : Clear F addr cnt) (hg : ∀ sec, G sec → F sec) : Clear G addr cnt :=
  ⟨h.fits, fun sec h1 h2 hs => h.apart sec h1 h2 (hg sec hs)⟩

end Block

section Shows

variable {maps : List ℕ} {cnt : ℕ} {a : ℕ → ℕ} {c : ℕ → ℕ → ℕ} {s t : FsSys}

theorem Shows.of_quiet (h : Shows maps cnt a c s) (hq : Quiet s t) : Shows maps cnt a c t := by
  have hmap : ∀ m ∈ maps, t.maps m = s.maps m := fun m hm => hq.maps m (h.small m hm)
  have hdisk : ∀ sec, OnDisk maps cnt t sec → OnDisk maps cnt s sec := by
    rintro sec ⟨m, hm, h1, h2, h3⟩
    rw [hmap m hm] at h1 h2 h3
    exact ⟨m, hm, h1, h2, h3⟩
  have hsec := hq.sectors (OnDisk maps cnt s) h.clean
  refine ⟨fun sb => by rw [hq.sbs]; exact h.blksize sb, fun m hm => (h.small m hm).trans_le hq.brk,
    fun m hm => by rw [hmap m hm]; exact h.addr m hm, h.fits, h.apart, fun m hm p hp => ?_,
    fun m hm n hn p h1 h2 => ?_, fun m hm i hi => ?_, fun p hp => ?_⟩
  · rw [hmap m hm] at hp
    obtain ⟨h1, h2, h3⟩ := h.page m hm p hp
    rw [hq.pages p h1]
    exact ⟨h1.trans_le hq.brk, h2, h3⟩
  · rw [hmap m hm] at h1
    rw [hmap n hn] at h2
    exact h.inj m hm n hn p h1 h2
  · rw [← h.bytes m hm i hi]
    by_cases hp : ∃ p, (s.maps m).mapPage = some (.ok p)
    · obtain ⟨p, hp⟩ := hp
      rw [blockByte_page (p := p) (by rw [hmap m hm]; exact hp), blockByte_page hp,
        hq.pages p (h.page m hm p hp).1]
    · have hp' := not_exists.mp hp
      rw [blockByte_disk (by rw [hmap m hm]; exact hp'), blockByte_disk hp', hmap m hm]
      have hfits : (s.maps m).mapAddr + cnt ≤ uintRange := h.addr m hm ▸ h.fits m hm
      exact readSectors_congr hfits (fun sec h1 h2 => hsec sec ⟨m, hm, hp', h1, h2⟩) hi
  · have he := hq.dirty p hp
    rw [he] at hp ⊢
    exact (h.clean p hp).imp hdisk

theorem Shows.of_same (h : Shows maps cnt a c s) (hs : SameObjects s t)
    (ht : ∀ m ∈ maps, ∀ sec, a m ≤ sec → sec < a m + cnt → t.sd.sector sec = s.sd.sector sec) :
    Shows maps cnt a c t := by
  have hdisk : OnDisk maps cnt t = OnDisk maps cnt s := by
    funext sec
    rw [OnDisk, OnDisk, hs.maps]
  refine ⟨fun sb => by rw [hs.sbs]; exact h.blksize sb, fun m hm => (h.small m hm).trans_le hs.brk,
    fun m hm => by rw [hs.maps]; exact h.addr m hm, h.fits, h.apart, fun m hm p hp => ?_,
    fun m hm n hn p h1 h2 => ?_, fun m hm i hi => ?_, fun p hp => ?_⟩
  · rw [hs.maps] at hp
    rw [hs.pages]
    obtain ⟨h1, h2⟩ := h.page m hm p hp
    exact ⟨h1.trans_le hs.brk, h2⟩
  · rw [hs.maps] at h1 h2
    exact h.inj m hm n hn p h1 h2
  · rw [← h.bytes m hm i hi]
    by_cases hp : ∃ p, (s.maps m).mapPage = some (.ok p)
    · obtain ⟨p, hp⟩ := hp
      rw [blockByte_page (p := p) (by rw [hs.maps]; exact hp), blockByte_page hp, hs.pages]
    · have hp' := not_exists.mp hp
      rw [blockByte_disk (by rw [hs.maps]; exact hp'), blockByte_disk hp', hs.maps, h.addr m hm]
      exact readSectors_congr (h.fits m hm) (ht m hm) hi
  · rw [hs.pages] at hp ⊢
    rw [hdisk]
    exact h.clean p hp

variable {env : FsEnv}

theorem allocFspage_page {addr blksize p : ℕ}
    (h : allocFspage env addr blksize s = some (.ok p, t)) : p = s.brk ∧ s.brk < t.brk ∧
      ∃ d, t.pages p = { newFspage addr blksize (readSectors s.sd addr) with pDirt := d } := by
  obtain ⟨rfl, u, hu, rfl⟩ := allocFspage_cases h
  have hq := (pCacheRoom_quiet env _ _ _ (Quiet.refl _) hu).1
  have hlt : s.brk < s.brk + 1 + 1 := by omega
  have hpage := hq.pages s.brk hlt
  rw [loadedFrom, setPage_self] at hpage
  exact ⟨rfl, hlt.trans_le hq.brk, _, hpage⟩

theorem Shows.setMap (h : Shows maps cnt a c s) {m : ℕ}
    (hnone : m ∈ maps → (s.maps m).mapPage = none) {r : Except ℕ ℕ}
    (hfree : ∀ p, r = .ok p → ∀ n ∈ maps, (s.maps n).mapPage ≠ some (.ok p))
    (hr : ∀ p, r = .ok p → m ∈ maps → (p < s.brk ∧ (s.pages p).pSecAddr = a m ∧
      (s.pages p).pSecCnt ≤ cnt) ∧ ∀ i < sectorSize * cnt, (s.pages p).pData i = c m i) :
    Shows maps cnt a c (s.setMap m fun f => { f with mapPage := some r }) := by
  have hself : (s.setMap m fun f => { f with mapPage := some r }).maps m =
      { s.maps m with mapPage := some r } := Function.update_self ..
  have hne : ∀ n, n ≠ m → (s.setMap m fun f => { f with mapPage := some r }).maps n = s.maps n :=
    fun n hn => Function.update_of_ne hn _ _
  have haddr : ∀ n, ((s.setMap m fun f => { f with mapPage := some r }).maps n).mapAddr =
      (s.maps n).mapAddr := by
    intro n
    by_cases e : n = m
    · rw [e, hself]
    · rw [hne n e]
  have hnot : m ∈ maps → ∀ p, (s.maps m).mapPage ≠ some (.ok p) := fun hm => by simp [hnone hm]
  refine ⟨h.blksize, h.small, fun n hn => (haddr n).trans (h.addr n hn), h.fits, h.apart,
    fun n hn p hp => ?_, fun n hn k hk p h1 h2 => ?_, fun n hn i hi => ?_, fun p hp => ?_⟩
  · by_cases e : n = m
    · subst e
      rw [hself] at hp
      exact (hr p (Option.some.inj hp) hn).1
    · rw [hne n e] at hp
      exact h.page n hn p hp
  · by_cases e1 : n = m <;> by_cases e2 : k = m
    · exact e1.trans e2.symm
    · rw [e1, hself] at h1
      rw [hne k e2] at h2
      exact absurd h2 (hfree p (Option.some.inj h1) k hk)
    · rw [e2, hself] at h2
      rw [hne n e1] at h1
      exact absurd h1 (hfree p (Option.some.inj h2) n hn)
    · rw [hne n e1] at h1
      rw [hne k e2] at h2
      exact h.inj n hn k hk p h1 h2
  · by_cases e : n = m
    · subst e
      cases r with
      | ok p =>
        rw [blockByte_page (p := p) (by rw [hself])]
        exact (hr p rfl hn).2 i hi
      | error e =>
        rw [blockByte_disk (by rw [hself]; simp), haddr]
        exact (blockByte_disk (hnot hn) i).symm.trans (h.bytes n hn i hi)
    · rw [blockByte, hne n e]
      exact h.bytes n hn i hi
  · refine (h.clean p hp).imp ?_
    rintro sec ⟨n, hn, h1, h2, h3⟩
    rw [haddr] at h2 h3
    by_cases e : n = m
    · subst e
      exact ⟨n, hn, hnot hn, h2, h3⟩
    · rw [hne n e] at h1
      exact ⟨n, hn, h1, h2, h3⟩

theorem getFspage_shows (h : Shows maps cnt a c s) {m blksize : ℕ}
    (hb : blksize >>> sectorShift ≤ cnt) {r : Except ℕ ℕ}
    (hr : getFspage env m blksize s = some (r, t)) : Shows maps cnt a c t ∧
      (∀ p, r = .ok p → (t.maps m).mapPage = some (.ok p)) := by
  rw [getFspage, Prog.get_bind_run] at hr
  cases hp : (s.maps m).mapPage with
  | some r' =>
    simp only [hp] at hr
    cases r' with
    | ok p =>
      cases hr
      exact ⟨h, fun q hq => by cases hq; exact hp⟩
    | error e =>
      cases hr
      exact ⟨h, fun q hq => by cases hq⟩
  | none =>
    simp only [hp] at hr
    rcases Prog.bind_cases hr with ⟨r', u, h1, hr⟩ | ⟨e, h1, -⟩
    · obtain ⟨r', h2, h1⟩ := Prog.attempt_cases h1
      cases h2
      have hq := (allocFspage_quiet env _ _ _ _ _ (Quiet.refl s) h1).1
      have hmap : ∀ n ∈ maps, u.maps n = s.maps n := fun n hn => hq.maps n (h.small n hn)
      have hnot : ∀ p, (s.maps m).mapPage ≠ some (.ok p) := by simp [hp]
      have hset : Shows maps cnt a c (u.setMap m fun f => { f with mapPage := some r' }) := by
        refine (h.of_quiet hq).setMap (fun hm => by rw [hmap m hm, hp]) (fun p hr' n hn hnp => ?_)
          fun p hr' hm => ?_
        · subst hr'
          obtain ⟨rfl, -⟩ := allocFspage_page h1
          rw [hmap n hn] at hnp
          exact lt_irrefl _ (h.page n hn _ hnp).1
        · subst hr'
          obtain ⟨rfl, h3, d, h4⟩ := allocFspage_page h1
          rw [h4]
          refine ⟨⟨h3, h.addr m hm, hb⟩, fun i hi => ?_⟩
          rw [← h.bytes m hm i hi, blockByte_disk hnot]
          rfl
      rw [Prog.modify_bind_run] at hr
      cases r' with
      | ok p =>
        cases hr
        exact ⟨hset, fun q hq => by cases hq; simp [FsSys.setMap]⟩
      | error e =>
        cases hr
        exact ⟨hset, fun q hq => by cases hq⟩
    · obtain ⟨_, h2, -⟩ := Prog.attempt_cases h1
      cases h2

/-- A change of the bytes of a block that depends on these bytes alone. -/
def Local (cnt : ℕ) (f : (ℕ → ℕ) → ℕ → ℕ) : Prop :=
  ∀ d d' : ℕ → ℕ, (∀ i < sectorSize * cnt, d i = d' i) → ∀ i < sectorSize * cnt, f d i = f d' i

theorem Shows.setPage (h : Shows maps cnt a c s) {m page : ℕ} (hm : m ∈ maps)
    (hp : (s.maps m).mapPage = some (.ok page)) {f : (ℕ → ℕ) → ℕ → ℕ} (hf : Local cnt f) :
    Shows maps cnt a (Function.update c m (f (c m)))
      (s.setPage page fun p => { p with pDirt := true, pData := f p.pData }) := by
  have hself := setPage_self s page fun p => { p with pDirt := true, pData := f p.pData }
  have hne : ∀ q, q ≠ page → (s.setPage page fun p =>
      { p with pDirt := true, pData := f p.pData }).pages q = s.pages q :=
    fun q hq => setPage_of_ne s _ hq
  refine ⟨h.blksize, h.small, h.addr, h.fits, h.apart, fun n hn p hnp => ?_, h.inj,
    fun n hn i hi => ?_, fun p hd => ?_⟩
  · obtain ⟨h1, h2⟩ := h.page n hn p hnp
    by_cases e : p = page
    · subst e
      rw [hself]
      exact ⟨h1, h2⟩
    · rw [hne p e]
      exact ⟨h1, h2⟩
  · by_cases e : n = m
    · subst e
      rw [blockByte_page (s := s.setPage page _) (p := page) hp, hself, Function.update_self]
      exact hf _ _ (fun j hj => by rw [← h.bytes n hn j hj, blockByte_page hp]) i hi
    · rw [Function.update_of_ne e, ← h.bytes n hn i hi]
      by_cases hnp : ∃ p, (s.maps n).mapPage = some (.ok p)
      · obtain ⟨p, hnp⟩ := hnp
        have hpp : p ≠ page := fun he => e (h.inj n hn m hm p hnp (he ▸ hp))
        rw [blockByte_page (s := s.setPage page _) (p := p) hnp, blockByte_page hnp, hne p hpp]
      · have hn' := not_exists.mp hnp
        rw [blockByte_disk (s := s.setPage page _) hn', blockByte_disk hn']
        rfl
  · by_cases e : p = page
    · subst e
      obtain ⟨-, h2, h3⟩ := h.page m hm p hp
      have hfits := h.fits m hm
      rw [hself]
      refine ⟨by simp only [h2]; omega, fun sec h4 h5 => ?_⟩
      rintro ⟨n, hn, h6, h7, h8⟩
      have hnm : m ≠ n := fun e => h6 p (e ▸ hp)
      have hapart := h.apart m hm n hn hnm
      change (s.maps n).mapAddr ≤ sec at h7
      change sec < (s.maps n).mapAddr + cnt at h8
      rw [h.addr n hn] at h7 h8
      simp only [h2] at h4 h5
      omega
    · rw [hne p e] at hd ⊢
      exact h.clean p hd

theorem updateSfn_shows (h : Shows maps cnt a c s) {m page : ℕ} (hm : m ∈ maps)
    (hp : (s.maps m).mapPage = some (.ok page)) {f : (ℕ → ℕ) → ℕ → ℕ} (hf : Local cnt f)
    {r : Except ℕ Unit} (hr : updateSfn env page f s = some (r, t)) :
    Shows maps cnt a (Function.update c m (f (c m))) t := by
  rw [updateSfn, Prog.modify_bind_run] at hr
  exact (h.setPage hm hp hf).of_quiet (flushFspage_quiet env _ _ _ _ (Quiet.refl _) hr).1

end Shows

/-- What neither the quiet functions nor the loading of blocks change. -/
structure Steady (env : FsEnv) (cnt : ℕ) (I : FsSys → Prop) : Prop where
  blksize : ∀ s, I s → ∀ sb, (s.sbs sb).sBlocksize >>> sectorShift ≤ cnt
  quiet : ∀ s t, I s → Quiet s t → I t
  load : ∀ m blksize, blksize >>> sectorShift ≤ cnt → Prog.Stays I (getFspage env m blksize)

namespace Steady

section Shows

variable (env : FsEnv) (maps : List ℕ) (cnt : ℕ) (a : ℕ → ℕ) (c : ℕ → ℕ → ℕ)

theorem shows : Steady env cnt (Shows maps cnt a c) :=
  ⟨fun _ hs => hs.blksize, fun _ _ hs hq => hs.of_quiet hq, fun _ _ hb _ _ _ hs hr =>
    ⟨(getFspage_shows hs hb hr).1, fun _ _ => trivial⟩⟩

theorem showsPage (p : ℕ) (data : ℕ → ℕ) :
    Steady env cnt fun s => Shows maps cnt a c s ∧ p < s.brk ∧ (s.pages p).pData = data := by
  have hquiet : ∀ s t : FsSys, p < s.brk ∧ (s.pages p).pData = data → Quiet s t →
      p < t.brk ∧ (t.pages p).pData = data := fun s t hs hq =>
    ⟨hs.1.trans_le hq.brk, by rw [hq.pages p hs.1]; exact hs.2⟩
  refine ⟨fun _ hs => hs.1.blksize, fun s t hs hq => ⟨hs.1.of_quiet hq, hquiet s t hs.2 hq⟩,
    fun m blksize hb => ?_⟩
  refine Prog.Ensures.and (fun _ _ _ hs hr => ⟨(getFspage_shows hs hb hr).1, fun _ _ => trivial⟩) ?_
  refine Prog.Ensures.get.bind fun s _ => ?_
  split
  · exact .ofExcept fun _ _ => trivial
  · have halloc : Prog.Stays (fun s : FsSys => p < s.brk ∧ (s.pages p).pData = data)
        (allocFspage env (s.maps m).mapAddr blksize) := fun s r t hs hr =>
      ⟨hquiet s t hs (allocFspage_quiet env _ _ s r t (Quiet.refl s) hr).1, fun _ _ => trivial⟩
    refine halloc.attempt.bind fun r _ => ?_
    exact Prog.Ensures.bind (.modify fun s hs => hs) fun _ _ => .ofExcept fun _ _ => trivial

end Shows

variable {env : FsEnv} {cnt : ℕ} {I : FsSys → Prop} (hI : Steady env cnt I)

include hI

theorem of_quiet {α : Type} {m : FsProg α} (h : ∀ s₀, Prog.Stays (Quiet s₀) m) : Prog.Stays I m :=
  fun s r t hs hr => ⟨hI.quiet s t hs (h s s r t (Quiet.refl s) hr).1, fun _ _ => trivial⟩

theorem modify {f : FsSys → FsSys} (hf : ∀ s, Quiet s (f s)) :
    Prog.Stays I (Prog.modify f : FsProg Unit) := .modify fun s hs => hI.quiet s _ hs (hf s)

theorem scanDir (skips : ℕ → Bool) (test : List ℕ → Bool) {blksize : ℕ}
    (hb : blksize >>> sectorShift ≤ cnt) (ms : List ℕ) :
    Prog.Stays I (scanDir env skips test blksize ms) := by
  induction ms with
  | nil => exact .pure trivial
  | cons m ms ih =>
    refine (hI.load m _ hb).bind fun page _ => Prog.Ensures.get.bind fun s _ => ?_
    split
    · exact .pure trivial
    · exact ih

theorem findSfn (parent sb : ℕ) (name : List ℕ) :
    Prog.Stays I (findSfn env parent sb name) :=
  Prog.Ensures.get.bind fun _ hs => hI.scanDir _ _ (hI.blksize _ hs _) _

theorem lookupSfn (parent : ℕ) (name : List ℕ) :
    Prog.Stays I (lookupSfn env parent name) :=
  Prog.Ensures.get.bind fun _ hs => hI.scanDir _ _ (hI.blksize _ hs _) _

theorem mustGetFspage (m : ℕ) {blksize : ℕ} (hb : blksize >>> sectorShift ≤ cnt) :
    Prog.Stays I (mustGetFspage env m blksize) := by
  refine (hI.load m _ hb).attempt.bind fun r _ => ?_
  split
  · exact .pure trivial
  · exact .stuck

theorem readLoop (fp : ℕ) {blksize : ℕ} (hb : blksize >>> sectorShift ≤ cnt) (ms : List ℕ)
    (curOff len : ℕ) : Prog.Stays I (readLoop env fp blksize ms curOff len) := by
  induction ms generalizing curOff len with
  | nil => exact .stuck
  | cons m ms ih =>
    refine (hI.mustGetFspage m hb).bind fun page _ => Prog.Ensures.get.bind fun s _ => ?_
    dsimp only
    split_ifs
    · exact Prog.Ensures.bind (hI.modify fun s => .of_eq le_rfl rfl rfl rfl rfl)
        fun _ _ => .pure trivial
    · exact (ih _ _).bind fun _ _ => .pure trivial

theorem fsRead (fp len : ℕ) : Prog.Stays I (fsRead env fp len) := by
  refine Prog.Ensures.get.bind fun s hs => ?_
  dsimp only
  split_ifs
  · exact .throw
  · exact .throw
  · exact Prog.Ensures.bind (hI.modify fun s => .of_eq le_rfl rfl rfl rfl rfl) fun _ _ =>
      hI.readLoop fp (hI.blksize _ hs _) _ _ _

theorem findParentName (cur firstClu n : ℕ) (sfn : ℕ → ℕ) :
    Prog.Stays I (findParentName env cur firstClu n sfn) := by
  induction n generalizing sfn with
  | zero => exact .stuck
  | succ n ih =>
    refine Prog.Ensures.get.bind fun s _ => ?_
    split_ifs
    · exact .pure trivial
    · refine (hI.fsRead cur _).attempt.bind fun r _ => ?_
      dsimp only
      split_ifs
      · exact .pure trivial
      · exact ih _

theorem readDotdotName (retEntry firstClu : ℕ) :
    Prog.Stays I (readDotdotName env retEntry firstClu) := by
  refine (follow_ensures (hI.of_quiet fun s₀ => openHandle_quiet env retEntry _)).bind
    fun cur _ => ?_
  refine (hI.findParentName cur firstClu _ _).bind fun name _ => ?_
  have htail : Prog.Stays I (do
      Prog.modify (releaseFile cur)
      let s ← Prog.get
      if compareFat32 (s.dentries retEntry).dName dotdotName = 0 then Prog.throw errorFileNotfound
        : FsProg Unit) := by
    refine Prog.Ensures.bind (hI.modify fun s => .of_eq le_rfl rfl rfl rfl rfl) fun _ _ =>
      Prog.Ensures.get.bind fun s _ => ?_
    split_ifs
    · exact .throw
    · exact .pure trivial
  cases name with
  | none => exact htail
  | some name =>
    exact Prog.Ensures.bind (hI.modify fun s => .of_eq le_rfl rfl rfl rfl rfl) fun _ _ => htail

theorem readDentryFromSfn (data : ℕ → ℕ) (off parentEntry : ℕ) (name : List ℕ) :
    Prog.Stays I (readDentryFromSfn env data off parentEntry name) := by
  refine Prog.Ensures.get.bind fun s _ => ?_
  have htail : ∀ node : ℕ, Prog.Stays I (do
      let retEntry ← allocDentryFat32 env (s.dentries parentEntry).dSb node (some parentEntry) name
      if compareFat32 name dotdotName = 0 then Fs.readDotdotName env retEntry (sfn1stclu data off)
      pure retEntry : FsProg ℕ) := by
    intro node
    refine (hI.of_quiet fun s₀ => allocDentryFat32_quiet env _ _ _ _).bind fun ret _ => ?_
    split_ifs
    · exact (hI.readDotdotName ret _).bind fun _ _ => .pure trivial
    · exact .pure trivial
  dsimp only
  split
  · exact htail _
  · exact (hI.of_quiet fun s₀ => allocInodeFat32_quiet env _ _ _ _).bind fun node _ => htail node

theorem lookupFat32 (parent : ℕ) (name : List ℕ) :
    Prog.Stays I (lookupFat32 env parent name) := by
  refine (hI.lookupSfn parent name).bind fun r _ => ?_
  split
  · exact .throw
  · exact Prog.Ensures.get.bind fun s _ => hI.readDentryFromSfn _ _ _ _

theorem getDentryParent (entry : ℕ) :
    Prog.Stays I (getDentryParent env entry) := by
  refine Prog.Ensures.get.bind fun s _ => ?_
  split
  · exact hI.lookupFat32 entry _
  · exact .pure trivial

end Steady

end OurOS.Fs
