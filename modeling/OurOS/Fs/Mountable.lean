import OurOS.Fs.BlockRun
import OurOS.Fs.MountRun

namespace OurOS.Fs

section Follow

variable {fat : ℕ → ℕ} {c d n : ℕ} {cs : List ℕ}

theorem FollowsTo.from_mem (h : FollowsTo fat c cs) (hd : d ∈ cs) :
    ∃ ds, ds.length ≤ cs.length ∧ FollowsTo fat d ds := by
  induction cs generalizing c with
  | nil => exact absurd hd List.not_mem_nil
  | cons e es ih =>
    obtain ⟨rfl, hend, hrest⟩ := h
    rcases List.mem_cons.mp hd with rfl | hd
    · exact ⟨d :: es, le_rfl, rfl, hend, hrest⟩
    · obtain ⟨ds, hlen, hds⟩ := ih hrest hd
      exact ⟨ds, Nat.le_succ_of_le hlen, hds⟩

theorem FollowsTo.nodup (h : FollowsTo fat c cs) : cs.Nodup := by
  induction cs generalizing c with
  | nil => exact List.nodup_nil
  | cons d ds ih =>
    refine List.nodup_cons.mpr ⟨fun hd => ?_, ih h.2.2⟩
    obtain ⟨es, hlen, hes⟩ := h.2.2.from_mem hd
    rw [← h.1] at hes
    rw [hes.unique h, List.length_cons] at hlen
    omega

theorem FollowsTo.bounds (h : FollowsTo fat c cs) (hc : c < n) (hfat : ∀ x, fat x < n) :
    ∀ x ∈ cs, x < n ∧ x ≠ fatItemEnd := by
  induction cs generalizing c with
  | nil => exact fun x hx => absurd hx List.not_mem_nil
  | cons d ds ih =>
    obtain ⟨rfl, hend, hrest⟩ := h
    intro x hx
    rcases List.mem_cons.mp hx with rfl | hx
    · exact ⟨hc, hend⟩
    · exact ih hrest (hfat c) x hx

theorem FollowsTo.length_lt (h : FollowsTo fat c cs) (hc : c < uintRange)
    (hfat : ∀ x, fat x < uintRange) : cs.length < uintRange := by
  have hb := h.bounds hc hfat
  have hnd : (fatItemEnd :: cs).Nodup :=
    List.nodup_cons.mpr ⟨fun hm => (hb _ hm).2 rfl, h.nodup⟩
  have hsub : (fatItemEnd :: cs) ⊆ List.range uintRange := by
    intro x hx
    rcases List.mem_cons.mp hx with rfl | hx
    · exact List.mem_range.mpr (by decide)
    · exact List.mem_range.mpr (hb x hx).1
  have hlen := (hnd.subperm hsub).length_le
  rw [List.length_cons, List.length_range] at hlen
  exact hlen

end Follow

section Cache

variable {env : FsEnv} {s t : FsSys} {m blksize p : ℕ}

structure PCacheSound (s : FsSys) : Prop where
  size : s.pCache.size = s.pCache.lru.length
  nodup : s.pCache.lru.Nodup
  lt : ∀ p ∈ s.pCache.lru, p < s.brk

theorem flushed_same (s : FsSys) (p : ℕ) :
    flushed s p = { s with sd := (flushed s p).sd, pages := (flushed s p).pages } := by
  rw [flushed]
  split_ifs <;> rfl

theorem PCacheSound.evict (h : PCacheSound s) (hp : p ∈ s.pCache.lru) :
    PCacheSound (shrinkP (freeFspage p (flushed s p))) := by
  have hcache : (shrinkP (freeFspage p (flushed s p))).pCache =
      { s.pCache with size := s.pCache.size - 1, lru := s.pCache.lru.erase p } := by
    rw [flushed_same]
    rfl
  have hbrk : (shrinkP (freeFspage p (flushed s p))).brk = s.brk := by
    rw [flushed_same]
    rfl
  refine ⟨?_, ?_, fun q hq => ?_⟩
  · rw [hcache, List.length_erase_of_mem hp, h.size]
  · rw [hcache]
    exact h.nodup.erase p
  · rw [hcache] at hq
    rw [hbrk]
    exact h.lt q (List.mem_of_mem_erase hq)

structure PagesEvicted (s t : FsSys) : Prop where
  sound : PCacheSound t
  brk : t.brk = s.brk
  lru : ∀ p ∈ t.pCache.lru, p ∈ s.pCache.lru

theorem flushPages_runs (he : Reliable env) {n : ℕ} {pages : List ℕ} (h : PCacheSound s)
    (hn : n ≤ pages.length) (hnd : pages.Nodup) (hin : ∀ p ∈ pages, p ∈ s.pCache.lru) :
    ∃ t, flushPages env n pages s = some (.ok true, t) ∧ PagesEvicted s t := by
  induction n generalizing pages s with
  | zero => exact ⟨s, rfl, h, rfl, fun _ hp => hp⟩
  | succ n ih =>
    cases pages with
    | nil => exact absurd hn (Nat.not_succ_le_zero n)
    | cons p pages =>
      obtain ⟨hp, hnd⟩ := List.nodup_cons.mp hnd
      have hlru : (shrinkP (freeFspage p (flushed s p))).pCache.lru = s.pCache.lru.erase p := by
        rw [flushed_same]
        rfl
      have hbrk : (shrinkP (freeFspage p (flushed s p))).brk = s.brk := by
        rw [flushed_same]
        rfl
      have hrest : ∀ q ∈ pages, q ∈ (shrinkP (freeFspage p (flushed s p))).pCache.lru := by
        intro q hq
        have hne : q ≠ p := fun e => hp (e ▸ hq)
        rw [hlru]
        exact (List.mem_erase_of_ne hne).mpr (hin q (List.mem_cons_of_mem p hq))
      obtain ⟨t, hrun, hs⟩ := ih (h.evict (hin p List.mem_cons_self)) (Nat.le_of_succ_le_succ hn)
        hnd hrest
      refine ⟨t, ?_, hs.sound, hs.brk.trans hbrk, fun q hq => ?_⟩
      · rw [flushPages, Prog.bind_ok (Prog.attempt_run (flushFspage_run he s p))]
        exact hrun
      · have hq := hs.lru q hq
        rw [hlru] at hq
        exact List.mem_of_mem_erase hq

theorem pCacheRoom_runs (he : Reliable env) (h : PCacheSound s) :
    ∃ t, pCacheRoom env s = some (.ok true, t) ∧ PagesEvicted s t := by
  rw [pCacheRoom, Prog.get_bind_run]
  split_ifs with hfull
  · rw [flushPCache, Prog.get_bind_run]
    refine flushPages_runs he h ?_ (List.nodup_reverse.mpr h.nodup) fun p hp => List.mem_reverse.mp hp
    rw [List.length_reverse, ← h.size, hfull]
    decide
  · exact ⟨s, rfl, h, rfl, fun _ hp => hp⟩

theorem PCacheSound.insert (h : PCacheSound s) (hp : p < s.brk) (hnew : p ∉ s.pCache.lru) :
    PCacheSound (addToPCache p s) where
  size := congrArg (· + 1) h.size
  nodup := List.nodup_cons.mpr ⟨hnew, h.nodup⟩
  lt q hq := by
    rcases List.mem_cons.mp hq with rfl | hq
    · exact hp
    · exact h.lt q hq

theorem allocFspage_runs (he : Reliable env) (h : PCacheSound s) (addr blksize : ℕ) :
    ∃ t, allocFspage env addr blksize s = some (.ok s.brk, t) ∧ PCacheSound t := by
  have hload : PCacheSound (loadedFrom s addr blksize) :=
    ⟨h.size, h.nodup, fun p hp => (h.lt p hp).trans_le (Nat.le_add_right s.brk 2)⟩
  obtain ⟨u, hrun, hu⟩ := pCacheRoom_runs he hload
  refine ⟨addToPCache s.brk u, ?_, hu.sound.insert ?_ fun hp => ?_⟩
  · rw [allocFspage, Prog.bind_ok (kmalloc_run he s)]
    dsimp only
    rw [Prog.bind_ok (kmalloc_run he _)]
    dsimp only
    rw [Prog.bind_ok (sdReadBlock_run he _ _ _)]
    dsimp only
    rw [Prog.modify_bind_run]
    exact Prog.bind_ok hrun
  · rw [hu.brk]
    exact Nat.lt_add_of_pos_right Nat.two_pos
  · exact absurd (h.lt s.brk (hu.lru _ hp)) (lt_irrefl _)

theorem getFspage_runs (he : Reliable env) (h : PCacheSound s) (hnone : (s.maps m).mapPage = none)
    (blksize : ℕ) : ∃ t, getFspage env m blksize s = some (.ok s.brk, t) ∧ PCacheSound t := by
  obtain ⟨u, hrun, hu⟩ := allocFspage_runs he h (s.maps m).mapAddr blksize
  refine ⟨u.setMap m fun x => { x with mapPage := some (.ok s.brk) }, ?_, hu.size, hu.nodup, hu.lt⟩
  rw [getFspage, Prog.get_bind_run]
  simp only [hnone]
  rw [Prog.bind_ok (Prog.attempt_run hrun)]
  rfl

theorem sizeRoot_runs (he : Reliable env) {node : ℕ} {maps : List ℕ} (h : PCacheSound s)
    (hc : Clean s) (hnd : maps.Nodup) (hm : ∀ x ∈ maps, x < s.brk ∧ (s.maps x).mapPage = none) :
    ∃ t, sizeRoot env node blksize maps s = some (.ok (), t) := by
  induction maps generalizing s with
  | nil => exact ⟨s, rfl⟩
  | cons m maps ih =>
    obtain ⟨hnot, hnd⟩ := List.nodup_cons.mp hnd
    obtain ⟨u, hrun, hu⟩ := getFspage_runs he h (hm m List.mem_cons_self).2 blksize
    have hl := getFspage_blockRead hc (hm m List.mem_cons_self).2 hrun
    have hrest : ∀ x ∈ maps, x < u.brk ∧ (u.maps x).mapPage = none := by
      intro x hx
      obtain ⟨hlt, hnone⟩ := hm x (List.mem_cons_of_mem m hx)
      exact ⟨hlt.trans_le hl.brk, (hl.mapPage x hlt fun e => hnot (e ▸ hx)).trans hnone⟩
    obtain ⟨t, ht⟩ := @ih (sizePage node s.brk blksize u) ⟨hu.size, hu.nodup, hu.lt⟩ hl.clean hnd hrest
    refine ⟨t, ?_⟩
    rw [sizeRoot, Prog.bind_ok hrun, Prog.modify_bind_run]
    exact ht

end Cache

section Runs

variable {env : FsEnv} {b : SuperBlock} {s t : FsSys} {node clu sb : ℕ} {cs : List ℕ}

theorem dword_lt {data : ℕ → ℕ} (h : ∀ i, data i < 2 ^ 8) (off : ℕ) :
    dword data off < uintRange := by
  have h0 := h off
  have h1 := h (off + 1)
  have h2 := h (off + 2)
  have h3 := h (off + 3)
  rw [dword, uintRange]
  omega

theorem walk_reliable (he : Reliable env) : walk env b s clu 1 = fatOf b s.sd clu := by
  change linkValue env b s 0 clu = _
  rw [linkValue, he.memory, readValue, he.memory, he.sd]
  rfl

theorem buildDataMap_runs (he : Reliable env) {fuel : ℕ} (h : ReadChain s.sd b clu cs)
    (hlen : cs.length < fuel) : ∃ t, buildDataMap env node b fuel clu s = some (.ok (), t) := by
  induction cs generalizing clu s fuel with
  | nil =>
    obtain ⟨fuel, rfl⟩ := Nat.exists_eq_succ_of_ne_zero hlen.ne'
    have hend : clu = fatItemEnd := h.follows
    refine ⟨s, ?_⟩
    rw [buildDataMap, if_pos hend]
    rfl
  | cons c cs ih =>
    obtain ⟨fuel, rfl⟩ := Nat.exists_eq_succ_of_ne_zero (Nat.ne_zero_of_lt hlen)
    obtain ⟨rfl, hend, hrest⟩ := h.follows
    have herr : isErrValue (walk env b s clu 1) = false := by
      rw [walk_reliable he]
      exact h.links clu List.mem_cons_self
    rw [buildDataMap_turn herr hend, walk_reliable he]
    have hchain : ReadChain s.sd b (fatOf b s.sd clu) cs :=
      ⟨hrest, fun c hc => h.links c (List.mem_cons_of_mem clu hc)⟩
    exact ih (hchain.congr rfl) (Nat.lt_of_succ_lt_succ hlen)

theorem allocInodeFat32_runs (he : Reliable env) (hi : s.iCache.size = 0)
    (h : ReadChain s.sd (s.sbs sb) clu cs) (hlen : cs.length < uintRange) :
    ∃ t, allocInodeFat32 env sb clu 0 true s = some (.ok s.brk, t) := by
  have hbegun : ReadChain (begun sb clu 0 true s).sd (s.sbs sb) clu cs := h.congr rfl
  obtain ⟨v, hrun⟩ : ∃ v, buildDataMap env s.brk (s.sbs sb) uintRange clu
      (begun sb clu 0 true s) = some (.ok (), v) := buildDataMap_runs he hbegun hlen
  have hroom : ¬ v.iCache.size = icacheCapacity := by
    rw [(buildDataMap_built hrun).iCache]
    change ¬ s.iCache.size = icacheCapacity
    rw [hi]
    decide
  have hadd : addToICache s.brk v = some (.ok true, enteredI s.brk v) := by
    rw [addToICache, Prog.get_bind_run, if_neg hroom]
    rfl
  refine ⟨enteredI s.brk v, ?_⟩
  rw [allocInodeFat32_eq (he.memory s.brk), Prog.bind_ok hrun, Prog.bind_ok hadd]
  rfl

theorem allocDentryFat32_runs (he : Reliable env) (hd : s.dCache.size = 0) :
    ∃ t, allocDentryFat32 env sb node none [slash] s = some (.ok s.brk, t) := by
  obtain ⟨u, room, hf, hadd⟩ := addToDCache_spec s.brk (linked sb node none [slash] s)
  have hroom : ¬ (linked sb node none [slash] s).dCache.size = dcacheCapacity := by
    rw [linked_same.2.2.2.1, hd]
    decide
  obtain ⟨rfl, rfl⟩ := hf.notFull hroom
  refine ⟨enteredD s.brk (linked sb node none [slash] s), ?_⟩
  rw [allocDentryFat32_eq (he.memory s.brk), Prog.bind_ok hadd]
  rfl

theorem rootFat32_runs (he : Reliable env) (hs : Bare s) (hp : PCacheSound s)
    (h : ReadChain s.sd (s.sbs sb) clu cs) (hlen : cs.length < uintRange) :
    ∃ t, rootFat32 env sb clu s = some (.ok sb, t) := by
  obtain ⟨t1, h1⟩ := allocInodeFat32_runs he (by rw [hs.iCache]) h hlen
  obtain ⟨-, cs', new, v, hlen', -, hread, rfl⟩ := allocInodeFat32_read (by rw [hs.iCache]) h1
  have hmaps : ((pinInode s.brk (enteredI s.brk v)).inodes s.brk).iDataMap = new := by
    rw [hread.rootAt hlen']
    rfl
  have hpCache : PCacheSound (pinInode s.brk (enteredI s.brk v)) := by
    have hcache : v.pCache = s.pCache := by
      rw [hread.same]
      rfl
    have hbrk := hread.brk
    refine ⟨?_, ?_, fun p hp' => ?_⟩
    · exact hcache ▸ hp.size
    · exact hcache ▸ hp.nodup
    · have hlt := hp.lt p (hcache ▸ hp')
      exact hlt.trans (Nat.lt_of_succ_le hbrk)
  obtain ⟨u, h2⟩ : ∃ u, sizeRoot env s.brk ((pinInode s.brk (enteredI s.brk v)).sbs sb).sBlocksize
      new (pinInode s.brk (enteredI s.brk v)) = some (.ok (), u) :=
    sizeRoot_runs he hpCache (hread.pinnedClean hs) hread.nodup fun m hm => (hread.fresh m hm).2
  have hsized := sizeRoot_sized (hread.pinnedClean hs) hread.nodup
    (fun m hm => (hread.fresh m hm).2)
    (by rw [hread.rootAt hlen']; exact Nat.two_pow_pos 32) h2
  have hd : u.dCache.size = 0 := by
    rw [hsized.dCache]
    change v.dCache.size = 0
    rw [hread.same]
    change s.dCache.size = 0
    rw [hs.dCache]
  obtain ⟨w, h3⟩ := @allocDentryFat32_runs env u s.brk sb he hd
  refine ⟨setRoot sb u.brk w, ?_⟩
  rw [rootFat32, Prog.bind_ok h1, Prog.modify_bind_run, Prog.get_bind_run, hmaps, Prog.bind_ok h2,
    Prog.bind_ok h3]
  rfl

theorem withBuf_run (he : Reliable env) {α : Type} {m : FsProg α} {r : Except ℕ α}
    (h : m (grabbed s) = some (r, t)) : withBuf env m s = some (r, t.kfree s.brk) := by
  rw [withBuf, Prog.bind_ok (kmalloc_run he s)]
  dsimp only
  rw [Prog.bind_ok (Prog.attempt_run h), Prog.modify_bind_run]
  cases r <;> rfl

theorem readSbFat32_run (he : Reliable env) (base : ℕ) : readSbFat32 env base s =
    rootFat32 env (s.brk + 1) (dbrRootClu (readSectors s.sd base)) (sbMade base (grabbed s)) := by
  rw [readSbFat32, Prog.bind_ok (kmalloc_run he s), Prog.bind_ok (sdReadBlock_run he _ _ _)]
  dsimp only
  rw [if_neg (Option.some_ne_none _), Prog.bind_ok (sdReadBlock_run he _ _ _)]
  dsimp only
  rw [Prog.bind_ok (kmalloc_run he _)]
  rfl

theorem initFscache_run (he : Reliable env) :
    initFscache env s = some (.ok (), cachesMade s) := by
  have hinfo (t : FsSys) : initFscacheInfo env t = some (.ok ⟨0, [], fun _ => []⟩, grabbed t) := by
    rw [initFscacheInfo, Prog.bind_ok (kmalloc_run he t)]
    rfl
  rw [initFscache, Prog.bind_ok (kmalloc_run he s)]
  dsimp only
  rw [Prog.bind_ok (hinfo _), Prog.modify_bind_run, Prog.bind_ok (hinfo _), Prog.modify_bind_run,
    Prog.bind_ok (hinfo _)]
  rfl

variable {getSbExt2 : ℕ → FsProg ℕ}

theorem readTable_run (he : Reliable env) {vol : ℕ}
    (htype : getFsType (dptSystemID (readSectors s.sd 0)) = some .fat32)
    (hbase : dptBaseAddr (readSectors s.sd 0) ≠ 0)
    (h : getSbFat32 env (dptBaseAddr (readSectors s.sd 0)) (tableRead s) = some (.ok vol, t)) :
    readTable env getSbExt2 s = some (.ok (), addSb vol t) := by
  rw [readTable, Prog.bind_ok (sdReadBlock_run he s 0 1)]
  dsimp only
  rw [Prog.bind_ok (kmalloc_run he _)]
  dsimp only
  rw [Prog.modify_bind_run, htype, if_pos hbase]
  exact Prog.bind_ok h

theorem tableFound_pages (sd : SdCard) : PCacheSound (sbMade (baseOf sd) (grabbed (tableFound sd))) :=
  ⟨rfl, List.nodup_nil, fun _ hp => absurd hp List.not_mem_nil⟩

theorem mountFs_runs (he : Reliable env) {sd : SdCard}
    (htype : getFsType (dptSystemID (readSectors sd 0)) = some .fat32) (hbase : baseOf sd ≠ 0)
    (h : ReadChain sd (volumeOf sd) (dbrRootClu (dbrOf sd)) cs) (hlen : cs.length < uintRange) :
    ∃ t, mountFs env getSbExt2 (poweredOn sd) = some (.ok (), t) := by
  have hbare := ((tableFound_bare sd).same (grabbed_same _)).sbMade (baseOf sd)
  have hsb : (sbMade (baseOf sd) (grabbed (tableFound sd))).sbs ((tableFound sd).brk + 1) =
      volumeOf sd := (sbMade_sbs _ _).trans (if_pos rfl)
  have hchain : ReadChain (sbMade (baseOf sd) (grabbed (tableFound sd))).sd
      ((sbMade (baseOf sd) (grabbed (tableFound sd))).sbs ((tableFound sd).brk + 1))
        (dbrRootClu (dbrOf sd)) cs := by
    rw [hsb]
    exact h.congr rfl
  obtain ⟨u, hroot⟩ := rootFat32_runs he hbare (tableFound_pages sd) hchain hlen
  have hread : readSbFat32 env (baseOf sd) (tableFound sd) =
      some (.ok ((tableFound sd).brk + 1), u) := (readSbFat32_run he _).trans hroot
  obtain ⟨x, hget⟩ : ∃ x, getSbFat32 env (baseOf sd)
      (tableRead (grabbed (cachesMade (poweredOn sd)))) =
        some (.ok ((tableFound sd).brk + 1), u.kfree x) := ⟨_, withBuf_run he hread⟩
  have htable : readTable env getSbExt2 (grabbed (cachesMade (poweredOn sd))) =
      some (.ok (), addSb ((tableFound sd).brk + 1) (u.kfree x)) :=
    readTable_run he htype hbase hget
  obtain ⟨y, hmbr⟩ : ∃ y, readMBR env getSbExt2 (cachesMade (poweredOn sd)) =
      some (.ok (), (addSb ((tableFound sd).brk + 1) (u.kfree x)).kfree y) :=
    ⟨_, withBuf_run he htable⟩
  obtain ⟨v, _, _, _, -, hlist, -, -, hbuilt⟩ := readSbFat32_built (tableFound_bare sd) hread
  have hone : ((addSb ((tableFound sd).brk + 1) (u.kfree x)).kfree y).sbList =
      [(tableFound sd).brk + 1] :=
    congrArg (· ++ [(tableFound sd).brk + 1]) (hbuilt.sbList.trans hlist)
  refine ⟨enterRoot (u.sbs ((tableFound sd).brk + 1)).sRoot
    ((addSb ((tableFound sd).brk + 1) (u.kfree x)).kfree y), ?_⟩
  rw [mountFs, Prog.bind_ok (initFscache_run he), Prog.bind_ok hmbr, Prog.get_bind_run, hone]
  rfl

/-- The bytes of a small card that are not zero: the record of the one partition in sector 0, its
first sector, the two clusters of the root directory in the table, and three entries in them. -/
def smallBytes : List ((ℕ × ℕ) × ℕ) :=
  [((0, 450), 0x0B), ((0, 454), 1), ((1, 13), 1), ((1, 14), 2), ((1, 16), 1), ((1, 36), 1),
    ((1, 44), 2), ((3, 8), 3), ((3, 12), 0xFF), ((3, 13), 0xFF), ((3, 14), 0xFF), ((3, 15), 0x0F),
    ((4, 0), 65), ((4, 32), 66), ((5, 0), 67)]

def smallCard : SdCard where
  sector sec o := (smallBytes.lookup (sec, o)).getD 0
  accesses := 0

theorem smallCard_bytes (sec o : ℕ) : smallCard.sector sec o < 2 ^ 8 := by
  have hall : ∀ x ∈ smallBytes, x.2 < 2 ^ 8 := by decide
  change (smallBytes.lookup (sec, o)).getD 0 < 2 ^ 8
  cases h : smallBytes.lookup (sec, o) with
  | none => exact Nat.two_pow_pos 8
  | some v =>
    obtain ⟨l, l', hl, -⟩ := List.lookup_eq_some_iff.mp h
    exact hall ((sec, o), v) (hl ▸ List.mem_append_right l List.mem_cons_self)

theorem smallCard_type : getFsType (dptSystemID (readSectors smallCard 0)) = some .fat32 := by
  decide +kernel

theorem smallCard_base : baseOf smallCard ≠ 0 := by decide +kernel

theorem smallCard_chain :
    ReadChain smallCard (volumeOf smallCard) (dbrRootClu (dbrOf smallCard)) [2, 3] where
  follows := by
    have hroot : dbrRootClu (dbrOf smallCard) = 2 := by decide +kernel
    have hnext : fatOf (volumeOf smallCard) smallCard 2 = 3 := by decide +kernel
    have hend : fatOf (volumeOf smallCard) smallCard 3 = fatItemEnd := by decide +kernel
    rw [hroot, FollowsTo, FollowsTo, hnext]
    exact ⟨rfl, by decide, rfl, by decide, hend⟩
  links := by decide +kernel

theorem smallCard_mounts :
    ∃ t, mountFs soundEnv getSbExt2 (poweredOn smallCard) = some (.ok (), t) :=
  mountFs_runs soundEnv_reliable smallCard_type smallCard_base smallCard_chain (by decide)

theorem mountFs_mounts {sd : SdCard}
    (htype : getFsType (dptSystemID (readSectors sd 0)) = some .fat32)
    (h : mountFs env getSbExt2 (poweredOn sd) = some (.ok (), t)) :
    baseOf sd ≠ 0 ∧ ∃ vol node root cs maps,
      ReadChain sd (volumeOf sd) (dbrRootClu (dbrOf sd)) cs ∧
        MountedAs sd vol node root cs maps t := by
  obtain ⟨hbase, vol, u, live, hread, ht⟩ := mountFs_ok htype h
  obtain ⟨v, cs, maps, root, hbare, hlist, hsector, hchain, hbuilt⟩ :=
    readSbFat32_built (tableFound_bare sd) hread
  have hsb : (u.sbs vol) =
      { volumeOf sd with sRoot := root, mntParent := none, mntMntpoint := none } := by
    rw [hbuilt.sbs, Function.update_self]
    rfl
  obtain rfl := ht (hbuilt.sbList.trans hlist)
  rw [hsb]
  refine ⟨hbase, vol, v.brk, root, cs, maps, hchain.congr rfl, (hbuilt.just hbare).relisted, rfl,
    hsb, rfl, rfl, ?_, ?_, hbuilt.addrs, hbuilt.card.trans hsector, hbuilt.clean⟩
  · exact (hbuilt.entered root).trans (if_pos rfl)
  · have hbytes : chainBytes v.sd (volumeOf sd) cs = chainBytes sd (volumeOf sd) cs :=
      chainBytes_eq _ cs hsector
    refine (hbuilt.inodeAt v.brk).trans ((if_pos rfl).trans ?_)
    rw [rootInode, rootInode, ← hbytes]
    rfl

theorem mountFs_mounts_small : ∃ t vol node root maps,
    mountFs soundEnv (fun _ => Prog.stuck) (poweredOn smallCard) = some (.ok (), t) ∧
      MountedAs smallCard vol node root [2, 3] maps t := by
  obtain ⟨t, h⟩ := @smallCard_mounts fun _ => Prog.stuck
  obtain ⟨-, vol, node, root, cs, maps, hchain, hmounted⟩ := mountFs_mounts smallCard_type h
  obtain rfl := hchain.follows.unique smallCard_chain.follows
  exact ⟨t, vol, node, root, maps, h, hmounted⟩

theorem mountFs_mounts_iff (he : Reliable env) {sd : SdCard}
    (hbytes : ∀ sec o, sd.sector sec o < 2 ^ 8)
    (htype : getFsType (dptSystemID (readSectors sd 0)) = some .fat32) :
    (∃ t, mountFs env getSbExt2 (poweredOn sd) = some (.ok (), t)) ↔
      baseOf sd ≠ 0 ∧ ∃ cs, ReadChain sd (volumeOf sd) (dbrRootClu (dbrOf sd)) cs := by
  have hread (addr : ℕ) : ∀ i, readSectors sd addr i < 2 ^ 8 := fun i => hbytes _ _
  constructor
  · rintro ⟨t, h⟩
    obtain ⟨hbase, _, _, _, hread, -⟩ := mountFs_ok htype h
    obtain ⟨_, cs, _, _, -, -, -, hchain, -⟩ := readSbFat32_built (tableFound_bare sd) hread
    exact ⟨hbase, cs, hchain.congr rfl⟩
  · rintro ⟨hbase, cs, hchain⟩
    exact mountFs_runs he htype hbase hchain (hchain.follows.length_lt (dword_lt (hread _) _)
      fun c => dword_lt (hread _) _)

theorem mountFs_mounts_iff_small :
    ∃ t, mountFs soundEnv (fun _ => Prog.stuck) (poweredOn smallCard) = some (.ok (), t) :=
  (mountFs_mounts_iff soundEnv_reliable smallCard_bytes smallCard_type).mpr
    ⟨smallCard_base, _, smallCard_chain⟩

theorem mountFs_reads_only {sd : SdCard} {r : Except ℕ Unit} {t : FsSys}
    (htype : getFsType (dptSystemID (readSectors sd 0)) ≠ some .ext2)
    (h : mountFs env getSbExt2 (poweredOn sd) = some (r, t)) : t.sd.sector = sd.sector := by
  have hstays : Prog.Stays (CardKept sd.sector) (mountFs env getSbExt2) := by
    refine initFscache_card.bind fun _ _ => (withBuf_card (readTable_card htype)).bind fun _ _ => ?_
    refine Prog.Ensures.get.bind fun s _ => ?_
    cases s.sbList with
    | nil => exact .stuck
    | cons sb l => exact CardKept.modify
  exact (hstays _ _ _ ⟨fun _ => rfl, rfl⟩ h).1.card

theorem mountFs_reads_only_small : ∃ t,
    mountFs soundEnv (fun _ => Prog.stuck) (poweredOn smallCard) = some (.ok (), t) ∧
      t.sd.sector = smallCard.sector := by
  have hne : getFsType (dptSystemID (readSectors smallCard 0)) ≠ some .ext2 := by
    rw [smallCard_type]
    decide
  obtain ⟨t, h⟩ := @smallCard_mounts fun _ => Prog.stuck
  exact ⟨t, h, mountFs_reads_only hne h⟩

end Runs

end OurOS.Fs
