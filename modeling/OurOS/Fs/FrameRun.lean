import OurOS.Fs.Frame
import OurOS.Fs.ReadWriteSpec

namespace OurOS.Fs

variable {F : ℕ → Prop} {B : ℕ} {X : ℕ → Prop} {W : Prop} {s₀ s t : FsSys} (env : FsEnv)

section Machine

theorem kmalloc_kept : Prog.Ensures (Kept F B X W s₀) (kmalloc env)
    fun p => ∀ a, p = some a → s₀.brk ≤ a := by
  intro s r t hs hr
  have hsame := kmalloc_keeps env s r t hr
  rw [kmalloc] at hr
  split at hr
  · cases hr
    exact ⟨hs.of_same hsame (fun _ _ _ => rfl) fun _ => rfl, fun p hp a ha => by cases hp; cases ha⟩
  · cases hr
    refine ⟨hs.of_same hsame (fun _ _ _ => rfl) fun _ => rfl, fun p hp a ha => ?_⟩
    cases hp
    cases ha
    exact hs.brk

theorem sdReadBlock_kept (addr count : ℕ) :
    Prog.Stays (Kept F B X W s₀) (sdReadBlock env addr count) := by
  intro s r t hs hr
  have hsame := sdReadBlock_keeps env addr count s r t hr
  rw [sdReadBlock] at hr
  split at hr
  · cases hr
    exact ⟨hs.of_same hsame (fun _ _ _ => rfl) fun _ => rfl, fun _ _ => trivial⟩
  · cases hr
    exact ⟨hs.of_same hsame (fun _ _ _ => rfl) fun _ => rfl, fun _ _ => trivial⟩

theorem sdFailure_lt {sd : SdCard} {count i : ℕ} (h : sdFailure env sd count = some i) :
    i < count := List.mem_range.mp (List.mem_of_find?_eq_some h)

theorem sdWriteBlock_kept (data : ℕ → ℕ) {addr count : ℕ} (hc : ¬ W → Clear F addr count) :
    Prog.Stays (Kept F B X W s₀) (sdWriteBlock env data addr count) := by
  intro s r t hs hr
  have hsame := sdWriteBlock_keeps env data addr count s r t hr
  rw [sdWriteBlock] at hr
  split at hr
  · rename_i i hi
    cases hr
    refine ⟨hs.of_same hsame (fun hw sec hf => ?_) fun _ => rfl, fun _ _ => trivial⟩
    exact (hc hw).writeSectors s.sd data (sdFailure_lt env hi).le hf
  · cases hr
    refine ⟨hs.of_same hsame (fun hw sec hf => ?_) fun _ => rfl, fun _ _ => trivial⟩
    exact (hc hw).writeSectors s.sd data le_rfl hf

theorem readFat_kept (fatBaseSec cluNum : ℕ) :
    Prog.Stays (Kept F B X W s₀) (readFat env fatBaseSec cluNum) := by
  refine (kmalloc_kept env).bind fun p _ => ?_
  cases p with
  | none => exact .pure trivial
  | some _ =>
    refine (sdReadBlock_kept env _ _).bind fun buf _ => ?_
    cases buf with
    | none => exact .pure trivial
    | some _ => exact .pure trivial

theorem findFreeClu_kept (fatBaseSec startIdx : ℕ) :
    Prog.Stays (Kept F B X W s₀) (findFreeClu env fatBaseSec startIdx) := by
  rw [findFreeClu]
  generalize uintRange = n
  induction n generalizing startIdx with
  | zero => exact .stuck
  | succ n ih =>
    refine (readFat_kept env _ _).bind fun value _ => ?_
    split_ifs
    · exact .pure trivial
    · exact .pure trivial
    · exact ih _

end Machine

section Free

theorem Kept.setDentries (h : Kept F B X W s₀ s) {g : ℕ → Dentry}
    (hi : ∀ d, (g d).dInode = (s.dentries d).dInode) (hs : ∀ d, (g d).dSb = (s.dentries d).dSb) :
    Kept F B X W s₀ { s with dentries := g } :=
  { h with
    dInode := fun d hd => (hi d).trans (h.dInode d hd)
    dSb := fun d hd => (hs d).trans (h.dSb d hd)
    apart := ⟨h.apart.blksize, h.apart.clusters, h.apart.maps, h.apart.pages⟩ }

theorem Kept.freeDentry (h : Kept F B X W s₀ s) (entry : ℕ) :
    Kept F B X W s₀ (freeDentry entry s) := by
  have h1 := (h.setCaches (s.dCache.unlink entry) s.iCache s.pCache).setInode
    (s.dentries entry).dInode (f := fun n => { n with iDentry := n.iDentry.erase entry })
    (fun _ _ => ⟨rfl, rfl⟩) fun _ _ _ => ⟨rfl, rfl, rfl⟩
  rw [Fs.freeDentry]
  dsimp only
  refine Kept.kfree ?_ entry
  cases (s.dentries entry).dParent with
  | none => exact h1.setDentries (fun d => by split_ifs <;> rfl) fun d => by split_ifs <;> rfl
  | some p =>
    have h2 := h1.setDentry p (f := fun e => { e with dSubdirs := e.dSubdirs.erase entry })
      (fun _ _ => rfl) fun _ _ => rfl
    exact h2.setDentries (fun d => by split_ifs <;> rfl) fun d => by split_ifs <;> rfl

theorem Kept.freeFspage (h : Kept F B X W s₀ s) (page : ℕ) :
    Kept F B X W s₀ (freeFspage page s) :=
  ((h.setCaches s.dCache s.iCache { s.pCache with lru := s.pCache.lru.erase page }).setPage page
    (h.apart.pages page)).kfree page

theorem freeMap_kept (map : ℕ) : Prog.Stays (Kept F B X W s₀) (freeMap map) := by
  refine Prog.Ensures.get.bind fun s _ => ?_
  split
  · exact .modify fun s hs => hs.kfree map
  · exact Prog.Ensures.bind (.modify fun s hs => hs.freeFspage _) fun _ _ =>
      .modify fun s hs => hs.kfree map
  · exact Prog.Ensures.stuck.bind fun _ (_ : True) => .modify fun s hs => hs.kfree map

theorem freeMaps_run {maps : List ℕ} {r : Except ℕ Unit}
    (h : Prog.forEach freeMap maps s = some (r, t)) : r = .ok () := by
  induction maps generalizing s with
  | nil =>
    cases h
    rfl
  | cons m maps ih =>
    rw [Prog.forEach] at h
    rcases Prog.bind_cases h with ⟨_, u, -, h⟩ | ⟨e, h, -⟩
    · exact ih h
    · rw [freeMap, Prog.get_bind_run] at h
      rcases hp : (s.maps m).mapPage with _ | _ | page <;> simp only [hp] at h <;> cases h

theorem freeMap_inodes (inodes : ℕ → Inode) (map : ℕ) :
    Prog.Stays (fun s : FsSys => s.inodes = inodes) (freeMap map) := by
  refine Prog.Ensures.get.bind fun s _ => ?_
  split
  · exact .modify fun s hs => hs
  · exact Prog.Ensures.bind (.modify fun s hs => hs) fun _ _ => .modify fun s hs => hs
  · exact Prog.Ensures.stuck.bind fun _ (_ : True) => .modify fun s hs => hs

theorem freeInode_kept (node : ℕ) : Prog.Stays (Kept F B X W s₀) (freeInode node) := by
  intro s r t hs hr
  rw [freeInode, Prog.get_bind_run, Prog.modify_bind_run, Prog.modify_bind_run,
    Prog.modify_bind_run] at hr
  have h1 : ∀ (entries : List ℕ) {u : FsSys}, Kept F B X W s₀ u →
      Kept F B X W s₀ (entries.foldl (fun s entry => freeDentry entry s) u) := by
    intro entries
    induction entries with
    | nil => exact fun hu => hu
    | cons e es ih => exact fun hu => ih (hu.freeDentry e)
  have h2 := h1 (s.inodes node).iDentry
    (hs.setCaches s.dCache (s.iCache.unlink node) s.pCache)
  have h3 := (h2.mono (Y := fun i => X i ∨ i = node) (fun _ => .inl) id).setInode node
    (f := fun n => { n with iDataMap := [] }) (fun _ _ => ⟨rfl, rfl⟩) fun _ hx => absurd (.inr rfl) hx
  rcases Prog.bind_cases hr with ⟨_, u, h4, h5⟩ | ⟨e, h4, -⟩
  · have h6 := Prog.Ensures.forEach (I := fun s => Kept F B (fun i => X i ∨ i = node) W s₀ s ∧
        s.inodes = _) _ (fun m _ => (freeMap_kept m).and (freeMap_inodes _ m)) _ _ _ ⟨h3, rfl⟩ h4
    obtain ⟨⟨h7, h8⟩, -⟩ := h6
    cases h5
    refine ⟨h7.kfreeNode fun hn hx => ?_, fun _ _ => trivial⟩
    rw [h8, ← h2.blocks node hn hx, ← h2.size node hn hx]
    simp [FsSys.setInode]
  · cases freeMaps_run h4

end Free

section Flush

variable {pinned unused : FsSys → ℕ → Bool} {free : ℕ → FsProg Unit}

theorem flushWalk_stays {I : FsSys → Prop} (hf : ∀ i, Prog.Stays I (free i)) (items : List ℕ)
    (target : Option ℕ) : Prog.Stays I (flushWalk pinned unused free items target) := by
  induction items generalizing target with
  | nil => exact .pure trivial
  | cons i items ih =>
    refine Prog.Ensures.get.bind fun s _ => ?_
    split_ifs
    · exact ih _
    · exact (hf i).bind fun _ _ => (ih _).bind fun _ _ => .pure trivial
    · exact ih _

theorem flushLru_stays {I : FsSys → Prop} (hf : ∀ i, Prog.Stays I (free i)) (lru : List ℕ) :
    Prog.Stays I (flushLru pinned unused free lru) := by
  refine (flushWalk_stays hf _ _).bind fun r _ => ?_
  split
  · exact .pure trivial
  · exact .pure trivial
  · exact (hf _).bind fun _ _ => .pure trivial

theorem Kept.shrinkD (h : Kept F B X W s₀ s) : Kept F B X W s₀ (shrinkD s) :=
  h.setCaches { s.dCache with size := s.dCache.size - 1 } s.iCache s.pCache

theorem Kept.shrinkI (h : Kept F B X W s₀ s) : Kept F B X W s₀ (shrinkI s) :=
  h.setCaches s.dCache { s.iCache with size := s.iCache.size - 1 } s.pCache

theorem Kept.shrinkP (h : Kept F B X W s₀ s) : Kept F B X W s₀ (shrinkP s) :=
  h.setCaches s.dCache s.iCache { s.pCache with size := s.pCache.size - 1 }

theorem addToDCache_kept (entry : ℕ) : Prog.Stays (Kept F B X W s₀) (addToDCache entry) := by
  refine Prog.Ensures.get.bind fun s _ => ?_
  have htail : ∀ room : Bool, Prog.Stays (Kept F B X W s₀) (do
      if room then
        Prog.modify fun s =>
          { s with dCache := s.dCache.add (hashString (s.dentries entry).dName) entry }
      pure room : FsProg Bool) := by
    intro room
    cases room with
    | false => exact .pure trivial
    | true =>
      exact Prog.Ensures.bind (.modify fun s hs => hs.setCaches _ s.iCache s.pCache)
        fun _ _ => .pure trivial
  dsimp only
  split_ifs
  · refine Prog.Ensures.bind (Q := fun _ => True) ?_ fun room _ => htail room
    refine Prog.Ensures.get.bind fun s _ => flushLru_stays (fun d => ?_) _
    exact .modify fun s hs => (hs.freeDentry d).shrinkD
  · exact htail true

theorem addToICache_kept (node : ℕ) : Prog.Stays (Kept F B X W s₀) (addToICache node) := by
  refine Prog.Ensures.get.bind fun s _ => ?_
  have htail : ∀ room : Bool, Prog.Stays (Kept F B X W s₀) (do
      if room then
        Prog.modify fun s => { s with iCache := s.iCache.add (hashInt (s.inodes node).iIno) node }
      pure room : FsProg Bool) := by
    intro room
    cases room with
    | false => exact .pure trivial
    | true =>
      exact Prog.Ensures.bind (.modify fun s hs => hs.setCaches s.dCache _ s.pCache)
        fun _ _ => .pure trivial
  dsimp only
  split_ifs
  · refine Prog.Ensures.bind (Q := fun _ => True) ?_ fun room _ => htail room
    refine Prog.Ensures.get.bind fun s _ => flushLru_stays (fun n => ?_) _
    exact (freeInode_kept n).bind fun _ _ => .modify fun s hs => hs.shrinkI
  · exact htail true

theorem flushFspage_kept (page : Option (Except ℕ ℕ)) :
    Prog.Stays (Kept F B X W s₀) (flushFspage env page) := by
  refine Prog.Ensures.get.bind fun s hs => ?_
  split
  · exact .pure trivial
  · exact .stuck
  · rename_i p
    dsimp only
    split_ifs
    · refine (sdWriteBlock_kept env _ fun _ => hs.apart.pages p).bind fun ok _ => ?_
      split_ifs
      · exact .modify fun s hs => hs.setPage p (hs.apart.pages p)
      · exact .throw
    · exact .pure trivial

theorem flushPages_kept (n : ℕ) (pages : List ℕ) :
    Prog.Stays (Kept F B X W s₀) (flushPages env n pages) := by
  induction n generalizing pages with
  | zero => exact .pure trivial
  | succ n ih =>
    cases pages with
    | nil => exact .stuck
    | cons p pages =>
      refine (flushFspage_kept env _).attempt.bind fun r _ => ?_
      split
      · exact .pure trivial
      · exact Prog.Ensures.bind (.modify fun s hs => (hs.freeFspage p).shrinkP) fun _ _ => ih pages

theorem pCacheRoom_kept : Prog.Stays (Kept F B X W s₀) (pCacheRoom env) := by
  refine Prog.Ensures.get.bind fun s _ => ?_
  split_ifs
  · exact Prog.Ensures.get.bind fun s _ => flushPages_kept env _ _
  · exact .pure trivial

end Flush

section Pages

theorem allocFspage_kept {baseSec blkSize : ℕ} (hc : Clear F baseSec (blkSize >>> sectorShift)) :
    Prog.Stays (Kept F B X W s₀) (allocFspage env baseSec blkSize) := by
  refine (kmalloc_kept env).bind fun p _ => ?_
  cases p with
  | none => exact .throw
  | some page =>
    refine (kmalloc_kept env).bind fun q _ => ?_
    cases q with
    | none => exact Prog.Ensures.bind (.modify fun s hs => hs.kfree page) fun _ _ => .throw
    | some _ =>
      refine (sdReadBlock_kept env _ _).bind fun data _ => ?_
      cases data with
      | none =>
        refine Prog.Ensures.bind (.modify fun s hs => hs.kfree page) fun _ _ =>
          (pCacheRoom_kept env).bind fun room _ => ?_
        split_ifs
        · exact .stuck
        · exact .throw
      | some data =>
        refine Prog.Ensures.bind (.modify fun s hs => hs.setPage page hc) fun _ _ =>
          (pCacheRoom_kept env).bind fun room _ => ?_
        split_ifs
        · refine Prog.Ensures.bind (.modify fun s hs => hs.setCaches s.dCache s.iCache _)
            fun _ _ => .pure trivial
        · exact .throw

theorem getFspage_kept (map : ℕ) {blksize : ℕ} (hb : blksize >>> sectorShift ≤ B) :
    Prog.Stays (Kept F B X W s₀) (getFspage env map blksize) := by
  refine Prog.Ensures.get.bind fun s hs => ?_
  split
  · exact .ofExcept fun _ _ => trivial
  · refine (allocFspage_kept env ((hs.apart.maps map).mono hb)).attempt.bind fun r _ => ?_
    refine Prog.Ensures.bind (.modify fun s hs => hs.setMap map (fun _ _ => rfl)
      (hs.apart.maps map)) fun _ _ => .ofExcept fun _ _ => trivial

end Pages

section Alloc

theorem Kept.appendBlock (h : Kept F B X W s₀ s) {node map : ℕ} {b : SuperBlock} {clu : ℕ}
    (hmap : s₀.brk ≤ map) (hnode : s₀.brk ≤ node ∨ X node) (hc : Clear F (cluSec b clu) B) :
    Kept F B X W s₀ (appendBlock node map b clu s) := by
  refine (h.setMap map (fun hm => absurd hm hmap.not_gt) hc).setInode node (fun _ _ => ⟨rfl, rfl⟩)
    fun hn hx => ?_
  rcases hnode with hnode | hnode
  · exact absurd hn hnode.not_gt
  · exact absurd hnode hx

theorem buildDataMap_kept {node : ℕ} (hnode : s₀.brk ≤ node) {b : SuperBlock}
    (hc : ∀ clu, Clear F (cluSec b clu) B) (n clu : ℕ) :
    Prog.Stays (Kept F B X W s₀) (buildDataMap env node b n clu) := by
  induction n generalizing clu with
  | zero => exact .stuck
  | succ n ih =>
    rw [buildDataMap]
    split_ifs
    · exact .pure trivial
    · refine (kmalloc_kept env).bind fun p hp => ?_
      cases p with
      | none => exact .throw
      | some map =>
        refine Prog.Ensures.bind (.modify fun s hs =>
          hs.appendBlock (hp map rfl) (.inl hnode) (hc clu)) fun _ _ => ?_
        refine (readFat_kept env _ _).bind fun value _ => ?_
        split_ifs
        · exact .throw
        · exact ih value

theorem allocInodeFat32_kept (sb baseBlkAddr size : ℕ) (isdir : Bool) :
    Prog.Ensures (Kept F B X W s₀) (allocInodeFat32 env sb baseBlkAddr size isdir)
      fun node => s₀.brk ≤ node := by
  refine (kmalloc_kept env).bind fun p hp => ?_
  cases p with
  | none => exact .throw
  | some node =>
    have hnode := hp node rfl
    refine Prog.Ensures.get.bind fun s hs => ?_
    refine Prog.Ensures.bind (.modify fun s hs => hs.setInode node
      (fun h => absurd h hnode.not_gt) fun h => absurd h hnode.not_gt) fun _ _ => ?_
    refine (buildDataMap_kept env hnode (hs.apart.clusters sb) _ _).bind fun _ _ => ?_
    refine (addToICache_kept node).bind fun room _ => ?_
    split_ifs
    · exact .pure hnode
    · exact .throw

theorem Kept.iIncCount (h : Kept F B X W s₀ s) (node : ℕ) : Kept F B X W s₀ (iIncCount node s) :=
  (h.setInode node (f := fun n => { n with iCount := n.iCount + 1 }) (fun _ _ => ⟨rfl, rfl⟩)
    fun _ _ _ => ⟨rfl, rfl, rfl⟩).setCaches s.dCache (s.iCache.touch node) s.pCache

theorem Kept.iDecCount (h : Kept F B X W s₀ s) (node : ℕ) : Kept F B X W s₀ (iDecCount node s) :=
  (h.setInode node (f := fun n => { n with iCount := n.iCount - 1 }) (fun _ _ => ⟨rfl, rfl⟩)
    fun _ _ _ => ⟨rfl, rfl, rfl⟩).setCaches s.dCache (s.iCache.touch node) s.pCache

theorem Kept.linkDentry (h : Kept F B X W s₀ s) (node entry : ℕ) (parent : Option ℕ) :
    Kept F B X W s₀ (linkDentry node entry parent s) := by
  have h1 := (h.iIncCount node).setInode node (f := fun n => { n with iDentry := entry :: n.iDentry })
    (fun _ _ => ⟨rfl, rfl⟩) fun _ _ _ => ⟨rfl, rfl, rfl⟩
  cases parent with
  | none => exact h1
  | some p =>
    exact h1.setDentry p (f := fun d => { d with dSubdirs := entry :: d.dSubdirs })
      (fun _ _ => rfl) fun _ _ => rfl

theorem allocDentryFat32_kept (sb node : ℕ) (parent : Option ℕ) (name : List ℕ) :
    Prog.Ensures (Kept F B X W s₀) (allocDentryFat32 env sb node parent name)
      fun d => s₀.brk ≤ d := by
  refine (kmalloc_kept env).bind fun p hp => ?_
  cases p with
  | none => exact .throw
  | some ret =>
    have hret := hp ret rfl
    refine Prog.Ensures.bind (.modify fun s hs => hs.setDentry ret
      (fun h => absurd h hret.not_gt) fun h => absurd h hret.not_gt) fun _ _ => ?_
    refine Prog.Ensures.bind (.modify fun s hs => hs.linkDentry node ret parent) fun _ _ => ?_
    refine (addToDCache_kept ret).bind fun room _ => ?_
    split_ifs
    · exact .pure hret
    · exact .throw

end Alloc

section Entries

theorem scanDir_kept (skips : ℕ → Bool) (test : List ℕ → Bool) {blksize : ℕ}
    (hb : blksize >>> sectorShift ≤ B) (maps : List ℕ) :
    Prog.Stays (Kept F B X W s₀) (scanDir env skips test blksize maps) := by
  induction maps with
  | nil => exact .pure trivial
  | cons m maps ih =>
    refine (getFspage_kept env m hb).bind fun page _ => Prog.Ensures.get.bind fun s _ => ?_
    split
    · exact .pure trivial
    · exact ih

theorem findSfn_kept (parent sb : ℕ) (name : List ℕ) :
    Prog.Stays (Kept F B X W s₀) (findSfn env parent sb name) :=
  Prog.Ensures.get.bind fun _ hs => scanDir_kept env _ _ (hs.apart.blksize sb) _

theorem lookupSfn_kept (parent : ℕ) (name : List ℕ) :
    Prog.Stays (Kept F B X W s₀) (lookupSfn env parent name) :=
  Prog.Ensures.get.bind fun _ hs => scanDir_kept env _ _ (hs.apart.blksize _) _

theorem updateSfn_kept (page : ℕ) (f : (ℕ → ℕ) → ℕ → ℕ) :
    Prog.Stays (Kept F B X W s₀) (updateSfn env page f) :=
  Prog.Ensures.bind (.modify fun _ hs => hs.setPage page (hs.apart.pages page)) fun _ _ =>
    flushFspage_kept env _

theorem Kept.dIncCount (h : Kept F B X W s₀ s) (d : ℕ) : Kept F B X W s₀ (dIncCount d s) :=
  (h.setDentry d (f := fun d => { d with dCount := d.dCount + 1 }) (fun _ _ => rfl)
    fun _ _ => rfl).setCaches (s.dCache.touch d) s.iCache s.pCache

theorem Kept.dDecCount (h : Kept F B X W s₀ s) (d : ℕ) : Kept F B X W s₀ (dDecCount d s) :=
  (h.setDentry d (f := fun d => { d with dCount := d.dCount - 1 }) (fun _ _ => rfl)
    fun _ _ => rfl).setCaches (s.dCache.touch d) s.iCache s.pCache

theorem Kept.releaseFile (h : Kept F B X W s₀ s) (fp : ℕ) : Kept F B X W s₀ (releaseFile fp s) :=
  (h.dDecCount _).kfree fp

theorem Kept.atEnd (h : Kept F B X W s₀ s) (ret entry : ℕ) :
    Kept F B X W s₀ (atEnd ret entry s) := by
  dsimp only [Fs.atEnd]
  exact h.setFile ret fun _ _ => rfl

theorem openHandle_kept (entry mode : ℕ) :
    Prog.Ensures (Kept F B X W s₀) (openHandle env entry mode) fun fp => s₀.brk ≤ fp := by
  refine (kmalloc_kept env).bind fun p hp => ?_
  cases p with
  | none => exact .throw
  | some ret =>
    have hret := hp ret rfl
    refine Prog.Ensures.bind (.modify fun s hs => hs.dIncCount entry) fun _ _ => ?_
    refine Prog.Ensures.bind (.modify fun s hs => hs.setFile ret fun h => absurd h hret.not_gt)
      fun _ _ => .pure hret

theorem mustGetFspage_kept (map : ℕ) {blksize : ℕ} (hb : blksize >>> sectorShift ≤ B) :
    Prog.Stays (Kept F B X W s₀) (mustGetFspage env map blksize) := by
  refine (getFspage_kept env map hb).attempt.bind fun r _ => ?_
  split
  · exact .pure trivial
  · exact .stuck

theorem Kept.setPosition (h : Kept F B X W s₀ s) (fp map off : ℕ) :
    Kept F B X W s₀ (setPosition fp map off s) := h.setFile fp fun _ _ => rfl

theorem readLoop_kept (fp : ℕ) {blksize : ℕ} (hb : blksize >>> sectorShift ≤ B) (maps : List ℕ)
    (curOff len : ℕ) : Prog.Stays (Kept F B X W s₀) (readLoop env fp blksize maps curOff len) := by
  induction maps generalizing curOff len with
  | nil => exact .stuck
  | cons m maps ih =>
    refine (mustGetFspage_kept env m hb).bind fun page _ => Prog.Ensures.get.bind fun s _ => ?_
    dsimp only
    split_ifs
    · exact Prog.Ensures.bind (.modify fun s hs => hs.setPosition fp m _) fun _ _ => .pure trivial
    · exact (ih _ _).bind fun _ _ => .pure trivial

theorem fsRead_kept (fp len : ℕ) : Prog.Stays (Kept F B X W s₀) (fsRead env fp len) := by
  refine Prog.Ensures.get.bind fun s hs => ?_
  dsimp only
  split_ifs
  · exact .throw
  · exact .throw
  · exact Prog.Ensures.bind (.modify fun s hs => hs.setFile fp fun _ _ => rfl) fun _ _ =>
      readLoop_kept env fp (hs.apart.blksize _) _ _ _

theorem findParentName_kept (cur firstClu n : ℕ) (sfn : ℕ → ℕ) :
    Prog.Stays (Kept F B X W s₀) (findParentName env cur firstClu n sfn) := by
  induction n generalizing sfn with
  | zero => exact .stuck
  | succ n ih =>
    refine Prog.Ensures.get.bind fun s _ => ?_
    split_ifs
    · exact .pure trivial
    · refine (fsRead_kept env cur _).attempt.bind fun r _ => ?_
      split
      · dsimp only
        split_ifs
        · exact .pure trivial
        · exact ih _
      · dsimp only
        split_ifs
        · exact .pure trivial
        · exact ih _

theorem follow_ensures {α : Type} {I : FsSys → Prop} {Q : α → Prop} {m : FsProg α}
    (h : Prog.Ensures I m Q) : Prog.Ensures I (follow m) Q := by
  refine h.attempt.bind fun r hr => ?_
  split
  · exact .pure (hr _ rfl)
  · exact .stuck

theorem readDotdotName_kept (retEntry firstClu : ℕ) :
    Prog.Stays (Kept F B X W s₀) (readDotdotName env retEntry firstClu) := by
  refine (follow_ensures (openHandle_kept env retEntry _)).bind fun cur _ => ?_
  refine (findParentName_kept env cur firstClu _ _).bind fun name _ => ?_
  have htail : Prog.Stays (Kept F B X W s₀) (do
      Prog.modify (releaseFile cur)
      let s ← Prog.get
      if compareFat32 (s.dentries retEntry).dName dotdotName = 0 then Prog.throw errorFileNotfound
        : FsProg Unit) := by
    refine Prog.Ensures.bind (.modify fun s hs => hs.releaseFile cur) fun _ _ =>
      Prog.Ensures.get.bind fun s _ => ?_
    split_ifs
    · exact .throw
    · exact .pure trivial
  cases name with
  | none => exact htail
  | some name =>
    exact Prog.Ensures.bind (.modify fun s hs => hs.setDentry retEntry (fun _ _ => rfl)
      fun _ _ => rfl) fun _ _ => htail

theorem readDentryFromSfn_kept (data : ℕ → ℕ) (off parentEntry : ℕ) (name : List ℕ) :
    Prog.Stays (Kept F B X W s₀) (readDentryFromSfn env data off parentEntry name) := by
  refine Prog.Ensures.get.bind fun s _ => ?_
  have htail : ∀ node : ℕ, Prog.Stays (Kept F B X W s₀) (do
      let retEntry ← allocDentryFat32 env (s.dentries parentEntry).dSb node (some parentEntry) name
      if compareFat32 name dotdotName = 0 then readDotdotName env retEntry (sfn1stclu data off)
      pure retEntry : FsProg ℕ) := by
    intro node
    refine (allocDentryFat32_kept env _ _ _ _).bind fun ret _ => ?_
    split_ifs
    · exact (readDotdotName_kept env ret _).bind fun _ _ => .pure trivial
    · exact .pure trivial
  dsimp only
  split
  · exact htail _
  · exact (allocInodeFat32_kept env _ _ _ _).bind fun node _ => htail node

theorem lookupFat32_kept (parent : ℕ) (name : List ℕ) :
    Prog.Stays (Kept F B X W s₀) (lookupFat32 env parent name) := by
  refine (lookupSfn_kept env parent name).bind fun r _ => ?_
  split
  · exact .throw
  · exact Prog.Ensures.get.bind fun s _ => readDentryFromSfn_kept env _ _ _ _

theorem getDentryParent_kept (entry : ℕ) :
    Prog.Stays (Kept F B X W s₀) (getDentryParent env entry) := by
  refine Prog.Ensures.get.bind fun s _ => ?_
  split
  · exact lookupFat32_kept env entry _
  · exact .pure trivial

end Entries

section Close

theorem closeFat32_kept (fp : ℕ) : Prog.Stays (Kept F B X W s₀) (closeFat32 env fp) := by
  refine Prog.Ensures.get.bind fun s _ => ?_
  refine (follow_ensures (getDentryParent_kept env _)).bind fun entry _ => ?_
  split_ifs
  · exact .throw
  · refine Prog.Ensures.get.bind fun s _ => (findSfn_kept env _ _ _).bind fun r _ => ?_
    split
    · exact Prog.Ensures.get.bind fun s _ => updateSfn_kept env _ _
    · exact .throw

theorem flushMap_kept (map : ℕ) : Prog.Stays (Kept F B X W s₀) (flushMap env map) :=
  Prog.Ensures.get.bind fun _ _ => flushFspage_kept env _

theorem fsClose_kept (fp : ℕ) : Prog.Stays (Kept F B X W s₀) (fsClose env fp) := by
  refine Prog.Ensures.get.bind fun s _ => ?_
  split_ifs
  · refine (Prog.Ensures.forEach _ fun m _ => flushMap_kept env m).bind fun _ _ => ?_
    exact (closeFat32_kept env fp).bind fun _ _ => .modify fun s hs => hs.releaseFile fp
  · exact .modify fun s hs => hs.releaseFile fp

theorem Kept.setDirt (h : Kept F B X W s₀ s) (fp : ℕ) : Kept F B X W s₀ (setDirt fp s) :=
  h.setFile fp fun _ _ => rfl

theorem Kept.writePage (h : Kept F B X W s₀ s) (page off : ℕ) (bytes : List ℕ) :
    Kept F B X W s₀ (writePage page off bytes s) := h.setPage page (h.apart.pages page)

theorem writeLoop_kept (fp : ℕ) {blksize : ℕ} (hb : blksize >>> sectorShift ≤ B) (maps : List ℕ)
    (curOff : ℕ) (buf : List ℕ) :
    Prog.Stays (Kept F B X W s₀) (writeLoop env fp blksize maps curOff buf) := by
  induction maps generalizing curOff buf with
  | nil => exact .stuck
  | cons m maps ih =>
    refine (mustGetFspage_kept env m hb).bind fun page _ => Prog.Ensures.get.bind fun s _ => ?_
    dsimp only
    split_ifs
    · exact Prog.Ensures.bind (.modify fun s hs => (hs.writePage page _ _).setDirt fp) fun _ _ =>
        .modify fun s hs => hs.setPosition fp m _
    · exact Prog.Ensures.bind (.modify fun s hs => (hs.writePage page _ _).setDirt fp) fun _ _ =>
        ih _ _

end Close

section Table

variable (hw : W)

include hw

theorem stays_of_same {α : Type} {m : FsProg α} (h : Prog.Keeps SameObjects m) :
    Prog.Stays (Kept F B X W s₀) m := fun s r t hs hr =>
  ⟨hs.of_same (h s r t hr) (fun hn => absurd hw hn) fun hn => absurd hw hn, fun _ _ => trivial⟩

theorem writeFat_kept (fatBaseSec cluNum value : ℕ) :
    Prog.Stays (Kept F B X W s₀) (writeFat env fatBaseSec cluNum value) :=
  stays_of_same hw (writeFat_keeps env _ _ _)

theorem updateNextClu_kept (sb value : ℕ) :
    Prog.Stays (Kept F B X W s₀) (updateNextClu env sb value) :=
  stays_of_same hw (updateNextClu_keeps env _ _)

theorem expandLoop_kept {node : ℕ} (hnode : X node) {b : SuperBlock}
    (hc : ∀ clu, Clear F (cluSec b clu) B) (n free last : ℕ) :
    Prog.Stays (Kept F B X W s₀) (expandLoop env node b n free last) := by
  induction n generalizing free last with
  | zero => exact .pure trivial
  | succ n ih =>
    refine (findFreeClu_kept env _ _).bind fun clu _ => ?_
    refine (writeFat_kept env hw _ _ _).bind fun _ _ => (kmalloc_kept env).bind fun p hp => ?_
    cases p with
    | none => exact .throw
    | some map =>
      exact Prog.Ensures.bind (.modify fun s hs =>
        hs.appendBlock (hp map rfl) (.inr hnode) (hc clu)) fun _ _ => ih _ _

theorem expandBlocks_kept {node : ℕ} (hnode : X node) (num : ℕ) :
    Prog.Stays (Kept F B X W s₀) (expandBlocks env node num) := by
  refine Prog.Ensures.get.bind fun s hs => ?_
  refine (expandLoop_kept env hw hnode (hs.apart.clusters _) _ _ _).bind fun r _ => ?_
  refine (writeFat_kept env hw _ _ _).bind fun _ _ => ?_
  exact (updateNextClu_kept env hw _ _).attempt.bind fun _ _ => .pure trivial

theorem expandFat32_kept {node : ℕ} (hnode : X node) (num : ℕ) :
    Prog.Stays (Kept F B X W s₀) (expandFat32 env node num) := by
  refine Prog.Ensures.bind (.modify fun s hs => hs.iIncCount node) fun _ _ => ?_
  refine (expandBlocks_kept env hw hnode num).attempt.bind fun r _ => ?_
  exact Prog.Ensures.bind (.modify fun s hs => hs.iDecCount node) fun _ _ =>
    .ofExcept fun _ _ => trivial

theorem freeClu_kept (fatBaseSec cluNum minClu : ℕ) :
    Prog.Stays (Kept F B X W s₀) (freeClu env fatBaseSec cluNum minClu) := by
  refine (readFat_kept env _ _).bind fun value _ => ?_
  have htail : Prog.Stays (Kept F B X W s₀) (do
      writeFat env fatBaseSec cluNum fatItemFree
      pure (value, if cluNum < minClu then cluNum else minClu) : FsProg (ℕ × ℕ)) :=
    (writeFat_kept env hw _ _ _).bind fun _ _ => .pure trivial
  dsimp only
  split
  · exact Prog.Ensures.throw.bind fun _ (_ : True) => htail
  · exact htail

theorem freeChain_kept (fatBaseSec n nextClu minClu : ℕ) :
    Prog.Stays (Kept F B X W s₀) (freeChain env fatBaseSec n nextClu minClu) := by
  induction n generalizing nextClu minClu with
  | zero => exact .stuck
  | succ n ih =>
    rw [freeChain]
    split_ifs
    · exact .pure trivial
    · exact (freeClu_kept env hw _ _ _).bind fun r _ => ih r.1 r.2

theorem lowerNextClu_kept (sb minClu : ℕ) :
    Prog.Stays (Kept F B X W s₀) (lowerNextClu env sb minClu) := by
  refine Prog.Ensures.get.bind fun s _ => ?_
  split_ifs
  · exact (updateNextClu_kept env hw _ _).attempt.bind fun _ _ => .pure trivial
  · exact .pure trivial

omit hw in
theorem Kept.truncated (h : Kept F B X W s₀ s) {node : ℕ} (hnode : X node) :
    Kept F B X W s₀ (truncated node s) := by
  have hfree : ∀ (maps : List ℕ) {u : FsSys}, Kept F B X W s₀ u →
      Kept F B X W s₀ (maps.foldl FsSys.kfree u) := by
    intro maps
    induction maps with
    | nil => exact fun hu => hu
    | cons m maps ih => exact fun hu => ih (hu.kfree m)
  exact hfree _ (h.setInode node (f := fun n =>
    { n with iBlocks := 1, iSize := 0, iDataMap := (s.inodes node).iDataMap.take 1 })
    (fun _ _ => ⟨rfl, rfl⟩) fun _ hx => absurd hnode hx)

omit hw in
theorem clearSfn_kept {node : ℕ} (hnode : X node) (parent sb : ℕ) (name : List ℕ) :
    Prog.Stays (Kept F B X W s₀) (clearSfn env node parent sb name) := by
  refine (findSfn_kept env _ _ _).bind fun r _ => ?_
  have hend : ∀ r, Prog.Stays (Kept F B X W s₀) (do
      Prog.modify (truncated node)
      Prog.ofExcept r : FsProg Unit) := fun r =>
    Prog.Ensures.bind (.modify fun s hs => hs.truncated hnode) fun _ _ => .ofExcept fun _ _ => trivial
  split
  · exact (updateSfn_kept env _ _).attempt.bind fun r _ => hend r
  · exact hend (.ok ())

theorem clearFat32_kept {node : ℕ} (hnode : X node) (parent : ℕ) (name : List ℕ) :
    Prog.Stays (Kept F B X W s₀) (clearFat32 env node parent name) := by
  refine Prog.Ensures.bind (.modify fun s hs => hs.iIncCount node) fun _ _ => ?_
  refine Prog.Ensures.bind (Q := fun _ => True) ?_ fun r _ =>
    Prog.Ensures.bind (.modify fun s hs => hs.iDecCount node) fun _ _ => .ofExcept fun _ _ => trivial
  refine Prog.Ensures.stays (Prog.Ensures.attempt (Q := fun _ => True) ?_)
  refine Prog.Ensures.get.bind fun s _ => (readFat_kept env _ _).bind fun next _ => ?_
  have htail : ∀ sb base : ℕ, Prog.Stays (Kept F B X W s₀) (do
      let minClu ← freeChain env base uintRange next maxClu
      lowerNextClu env sb minClu
      clearSfn env node parent sb name : FsProg Unit) := fun sb base =>
    (freeChain_kept env hw _ _ _ _).bind fun _ _ =>
      (lowerNextClu_kept env hw _ _).bind fun _ _ => clearSfn_kept env hnode _ _ _
  dsimp only
  split_ifs
  · exact (writeFat_kept env hw _ _ _).bind fun _ _ => htail _ _
  · exact htail _ _

omit hw in
theorem deleteSfn_kept (node parent sb : ℕ) (name : List ℕ) :
    Prog.Stays (Kept F B X W s₀) (deleteSfn env node parent sb name) := by
  refine (findSfn_kept env _ _ _).bind fun r _ => ?_
  have hend : ∀ r, Prog.Stays (Kept F B X W s₀) (do
      freeInode node
      Prog.ofExcept r : FsProg Unit) := fun r =>
    (freeInode_kept node).bind fun _ _ => .ofExcept fun _ _ => trivial
  split
  · exact (updateSfn_kept env _ _).attempt.bind fun r _ => hend r
  · exact hend (.ok ())

theorem deleteFat32_kept (node parent : ℕ) (name : List ℕ) :
    Prog.Stays (Kept F B X W s₀) (deleteFat32 env node parent name) :=
  Prog.Ensures.get.bind fun _ _ => (freeClu_kept env hw _ _ _).bind fun _ _ =>
    (freeChain_kept env hw _ _ _ _).bind fun _ _ =>
      (lowerNextClu_kept env hw _ _).bind fun _ _ => deleteSfn_kept env _ _ _ _

variable (hx : ∀ i, X i)

include hx

theorem fileExpandTo_kept (fp size : ℕ) :
    Prog.Stays (Kept F B X W s₀) (fileExpandTo env fp size) := by
  refine Prog.Ensures.get.bind fun s _ => ?_
  have htail : Prog.Stays (Kept F B X W s₀) (Prog.modify fun t =>
      (t.setInode (fileInode s fp) fun n => { n with iSize := size }).setFile fp fun f =>
        { f with fSize := size } : FsProg Unit) :=
    .modify fun u hu => (hu.setInode (fileInode s fp) (f := fun n => { n with iSize := size })
      (fun _ _ => ⟨rfl, rfl⟩) fun _ hn => absurd (hx _) hn).setFile fp fun _ _ => rfl
  dsimp only
  split_ifs
  · exact .pure trivial
  · exact (expandFat32_kept env hw (hx _) _).bind fun _ _ => htail
  · exact htail

omit hw hx in
theorem writeRest_kept (fp off : ℕ) (buf : List ℕ) :
    Prog.Stays (Kept F B X W s₀) (writeRest env fp off buf) :=
  Prog.Ensures.bind (.modify fun _ hu => hu.setFile fp fun _ _ => rfl) fun _ _ =>
    Prog.Ensures.get.bind fun _ hu => writeLoop_kept env fp (hu.apart.blksize _) _ _ _

theorem fsWrite_kept (fp : ℕ) (buf : List ℕ) :
    Prog.Stays (Kept F B X W s₀) (fsWrite env fp buf) := by
  intro s r t hs hr
  rcases fsWrite_inv hr with ⟨-, -, rfl⟩ | ⟨-, -, e, rfl, hexp⟩ | ⟨u, hwrite, hrest⟩
  · exact ⟨hs, fun _ _ => trivial⟩
  · exact ⟨(fileExpandTo_kept env hw hx fp _ _ _ _ hs hexp).1, fun _ _ => trivial⟩
  · rcases hwrite.expand with ⟨-, hexp⟩ | ⟨-, rfl⟩
    · have hu := (fileExpandTo_kept env hw hx fp _ _ _ _ hs hexp).1
      exact writeRest_kept env fp _ buf _ _ _ hu hrest
    · exact writeRest_kept env fp _ buf _ _ _ hs hrest

theorem dentryOpenFile_kept (entry mode : ℕ) :
    Prog.Stays (Kept F B X W s₀) (dentryOpenFile env entry mode) := by
  refine (openHandle_kept env entry mode).bind fun ret _ => ?_
  split_ifs
  · exact Prog.Ensures.bind (.modify fun u hu => hu.atEnd ret entry) fun _ _ => .pure trivial
  · refine (follow_ensures (getDentryParent_kept env entry)).bind fun parent _ => ?_
    refine Prog.Ensures.get.bind fun s _ => ?_
    refine (clearFat32_kept env hw (hx _) parent _).attempt.bind fun _ _ => ?_
    exact Prog.Ensures.bind (.modify fun u hu => hu.setFile ret fun _ _ => rfl) fun _ _ =>
      .pure trivial
  · exact .pure trivial

theorem createDentryFat32_kept (sb parent : ℕ) (name : List ℕ) (isdir : Bool) :
    Prog.Stays (Kept F B X W s₀) (createDentryFat32 env sb parent name isdir) := by
  refine Prog.Ensures.get.bind fun s _ => (findFreeClu_kept env _ _).bind fun clu _ => ?_
  refine (writeFat_kept env hw _ _ _).bind fun _ _ => ?_
  refine (allocInodeFat32_kept env _ _ _ _).bind fun node _ => ?_
  refine (allocDentryFat32_kept env _ _ _ _).attempt.bind fun ret _ => ?_
  refine Prog.Ensures.bind (Q := fun _ => True) ?_ fun _ _ => .ofExcept fun _ _ => trivial
  refine (follow_ensures (dentryOpenFile_kept env hw hx parent _)).bind fun fp _ => ?_
  refine (fsWrite_kept env hw hx fp _).attempt.bind fun _ _ => ?_
  exact (fsClose_kept env fp).attempt.bind fun _ _ => .pure trivial

end Table

end OurOS.Fs
