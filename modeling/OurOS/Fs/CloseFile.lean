import OurOS.Fs.OwnBlocks
import OurOS.Fs.Selection

namespace OurOS.Fs

def handleMaps (s : FsSys) (fp : ℕ) : List ℕ := (s.inodes (s.files fp).fDataMap).iDataMap

def handleName (s : FsSys) (fp : ℕ) : List ℕ := (s.dentries (s.files fp).fDentry).dName

def scannedMaps (skips : ℕ → Bool) (test : List ℕ → Bool) (blksize : ℕ) (c : ℕ → ℕ → ℕ) :
    List ℕ → List ℕ
  | [] => []
  | m :: ms =>
    m :: if (scanSfn skips test (c m) (sfnOffsets blksize)).isSome then []
      else scannedMaps skips test blksize c ms

section Scan

variable {env : FsEnv} {s t : FsSys} {maps ms : List ℕ} {cnt page off : ℕ} {c : ℕ → ℕ → ℕ}
  {skips : ℕ → Bool} {test : List ℕ → Bool}

theorem LoadedPage.room {m p : ℕ} (h : LoadedPage maps cnt s t m p) {ls : List ℕ}
    (hroom : s.pCache.size + (m :: ls).countP (uncached s) ≤ pcacheCapacity) :
    t.pCache.size + ls.countP (uncached t) ≤ pcacheCapacity := by
  have hle : ls.countP (uncached t) ≤ ls.countP (uncached s) :=
    List.countP_mono_left fun n _ hn => (h.cached n hn).2
  rw [List.countP_cons] at hroom
  rw [h.size]
  cases hu : uncached s m with
  | true =>
    rw [hu, if_pos rfl] at hroom
    simp only [Bool.toNat_true]
    omega
  | false =>
    simp only [Bool.toNat_false]
    omega

theorem scanDir_found (ho : OwnBlocks maps cnt s) (hsub : ∀ m ∈ ms, m ∈ maps)
    (hc : ∀ m ∈ maps, ∀ i < sectorSize * cnt, blockByte s m i = c m i)
    (hroom : s.pCache.size + (scannedMaps skips test (sectorSize * cnt) c ms).countP (uncached s) ≤
      pcacheCapacity)
    (hr : scanDir env skips test (sectorSize * cnt) ms s = some (.ok (some (page, off)), t)) :
    BlocksRead maps cnt s t ∧ ∃ m ∈ ms, (t.maps m).mapPage = some (.ok page) ∧
      scanSfn skips test (c m) (sfnOffsets (sectorSize * cnt)) = some off := by
  induction ms generalizing s with
  | nil => cases hr
  | cons m ms ih =>
    have hm := hsub m List.mem_cons_self
    have hfits : uncached s m = true → s.pCache.size ≠ pcacheCapacity := by
      intro hu
      rw [scannedMaps, List.countP_cons, hu, if_pos rfl] at hroom
      omega
    obtain ⟨p, u, h1, hr⟩ := Prog.bind_ok_cases hr
    have hl := getFspage_loadedPage ho hm hfits h1
    have hdata : SameSfns (u.pages p).pData (c m) (sfnOffsets (sectorSize * cnt)) :=
      sameSfns_block fun i hi => by
        rw [← hc m hm i hi, ← hl.bytes m hm, blockByte_page hl.mapped]
    have hscan := (scanSfn_block skips test hdata).trans
      (scanSfn_block skips test fun _ _ _ _ => rfl).symm
    rw [Prog.get_bind_run, hscan] at hr
    cases hs : scanSfn skips test (c m) (sfnOffsets (sectorSize * cnt)) with
    | some off' =>
      simp only [hs] at hr
      cases hr
      exact ⟨hl.toBlocksRead, m, List.mem_cons_self, hl.mapped, hs⟩
    | none =>
      simp only [hs] at hr
      rw [scannedMaps, hs] at hroom
      obtain ⟨h2, n, h3, h4⟩ := ih hl.own (fun n hn => hsub n (List.mem_cons_of_mem _ hn))
        (fun n hn i hi => (congrFun (hl.bytes n hn) i).trans (hc n hn i hi)) (hl.room hroom) hr
      exact ⟨hl.toBlocksRead.trans h2, n, List.mem_cons_of_mem _ h3, h4⟩

end Scan

section Update

variable {env : FsEnv} {s t : FsSys} {maps : List ℕ} {cnt m n p : ℕ} {f : (ℕ → ℕ) → ℕ → ℕ}

structure ChangedBlock (maps : List ℕ) (cnt m : ℕ) (f : (ℕ → ℕ) → ℕ → ℕ) (s t : FsSys) : Prop where
  sameMaps : t.maps = s.maps
  written : ∀ i < sectorSize * cnt, diskByte t m i = f (blockByte s m) i
  disk : ∀ n ∈ maps, n ≠ m → ∀ i < sectorSize * cnt, diskByte t n i = diskByte s n i
  bytes : ∀ n ∈ maps, ∀ i < sectorSize * cnt,
    blockByte t n i = if n = m then f (blockByte s m) i else blockByte s n i

theorem updateSfn_changed (ho : OwnBlocks maps cnt s) (hpos : 0 < cnt) (hm : m ∈ maps)
    (hp : (s.maps m).mapPage = some (.ok p)) (h : updateSfn env p f s = some (.ok (), t)) :
    ChangedBlock maps cnt m f s t := by
  rw [updateSfn, Prog.modify_bind_run] at h
  generalize hu : s.setPage p (fun p => { p with pDirt := true, pData := f p.pData }) = u at h
  obtain rfl := flushFspage_done h
  have hmaps : u.maps = s.maps := by rw [← hu]; rfl
  have hbrk : u.brk = s.brk := by rw [← hu]; rfl
  have hsd : u.sd = s.sd := by rw [← hu]; rfl
  have hself : u.pages p = { s.pages p with pDirt := true, pData := f (s.pages p).pData } := by
    rw [← hu, setPage_self]
  have hne : ∀ q, q ≠ p → u.pages q = s.pages q := fun q hq => by rw [← hu, setPage_of_ne _ _ hq]
  have hpu : (u.maps m).mapPage = some (.ok p) := by rw [hmaps]; exact hp
  have hbm : blockByte u m = f (blockByte s m) := by
    have hdata : blockByte s m = (s.pages p).pData := funext (blockByte_page hp)
    funext i
    rw [blockByte_page hpu, hself, hdata]
  have hbn : ∀ n ∈ maps, n ≠ m → blockByte u n = blockByte s n := by
    intro n hn e
    funext i
    rw [blockByte, blockByte, hmaps, hsd]
    rcases hq : (s.maps n).mapPage with _ | _ | q
    · rfl
    · rfl
    · simp only [hne q fun e' => e (ho.inj hpos hn hm (e' ▸ hq) hp)]
  have hou : OwnBlocks maps cnt u := by
    refine ⟨by rw [hmaps]; exact ho.fits, by rw [hmaps]; exact ho.apart, fun n hn q hq => ?_⟩
    rw [hmaps] at hq ⊢
    rw [hbrk]
    have h1 := ho.page n hn q hq
    by_cases e : q = p
    · subst e
      rw [hself]
      exact h1
    · rw [hne q e]
      exact h1
  have hdirty : dirtyBlock u m = true := by rw [dirtyBlock_page hpu, hself]
  have hdisk : ∀ n i, diskByte u n i = diskByte s n i := fun n i => by
    rw [diskByte, diskByte, hmaps, hsd]
  have hflush : flushMap env m u = some (.ok (), flushed u p) := by
    rw [flushMap, Prog.get_bind_run, hpu]
    exact h
  have hback := flushMap_writtenBack hou hpos hm hflush
  refine ⟨hback.maps_eq.trans hmaps, fun i hi => ?_, fun n hn e i hi => ?_, fun n hn i hi => ?_⟩
  · rw [hback.disk m hm i hi, if_pos ⟨List.mem_singleton_self m, hdirty⟩, hbm]
  · rw [hback.disk n hn i hi, if_neg fun hc => e (List.mem_singleton.mp hc.1), hdisk]
  · rw [hback.bytes hi hn]
    split_ifs with e
    · rw [e, hbm]
    · rw [hbn n hn e]

end Update

/-- The state in which a written handle on a file is closed: `e` is the entry of the file in the
directory `dir`, the only one with its name, and nothing has to be evicted. -/
structure Closing (s : FsSys) (fp dir cnt : ℕ) (e : ℕ × ℕ) : Prop where
  written : (s.files fp).fDirt = true
  parent : (s.dentries (s.files fp).fDentry).dParent = some dir
  blksize : (s.sbs (s.dentries dir).dSb).sBlocksize = sectorSize * cnt
  own : OwnBlocks (handleMaps s fp ++ dirMaps s dir) cnt s
  apart : ∀ m ∈ handleMaps s fp, m ∉ dirMaps s dir
  entry : e ∈ visibleEntries lookupSkips (sectorSize * cnt) (blockByte s) (dirMaps s dir)
  named : ∀ x ∈ visibleEntries lookupSkips (sectorSize * cnt) (blockByte s) (dirMaps s dir),
    compareFat32 (handleName s fp) (entryName (blockByte s) x) = 0 ↔ x = e
  room : s.pCache.size + (scannedMaps scanSkips (fun curName =>
    compareFat32 curName (handleName s fp) == 0) (sectorSize * cnt) (blockByte s)
      (dirMaps s dir)).countP (uncached s) ≤ pcacheCapacity
  size : (s.inodes (fileInode s fp)).iSize < uintRange

/-- The blocks of the file hold on the disk what was read through the handle, its entry there has
the size of the file, and no other byte of the directory has changed. -/
structure Durable (s t : FsSys) (fp dir cnt : ℕ) (e : ℕ × ℕ) : Prop where
  blocks : ∀ m ∈ handleMaps s fp, ∀ i < sectorSize * cnt,
    readSectors t.sd (s.maps m).mapAddr i = blockByte s m i
  size : sfnFileSize (readSectors t.sd (s.maps e.1).mapAddr) e.2 =
    (s.inodes (fileInode s fp)).iSize
  others : ∀ m ∈ dirMaps s dir, ∀ i < sectorSize * cnt,
    ¬ (m = e.1 ∧ e.2 + 28 ≤ i ∧ i < e.2 + sfnSize) → blockByte t m i = blockByte s m i

section Close

variable {env : FsEnv} {s t u : FsSys} {fp dir cnt : ℕ} {e : ℕ × ℕ}

structure Updated (s u t : FsSys) (fp dir cnt : ℕ) (e : ℕ × ℕ) : Prop where
  file : ∀ m ∈ handleMaps s fp, ∀ i < sectorSize * cnt,
    readSectors t.sd (s.maps m).mapAddr i = diskByte u m i
  entry : ∀ i < sectorSize * cnt, readSectors t.sd (s.maps e.1).mapAddr i =
    putSfnFileSize (blockByte s e.1) e.2 (s.inodes (fileInode s fp)).iSize i
  dir : ∀ m ∈ dirMaps s dir, ∀ i < sectorSize * cnt, blockByte t m i =
    if m = e.1 then putSfnFileSize (blockByte s e.1) e.2 (s.inodes (fileInode s fp)).iSize i
    else blockByte s m i

theorem Closing.mem (h : Closing s fp dir cnt e) : e.1 ∈ dirMaps s dir :=
  (mem_visibleEntries.mp h.entry).1

theorem Closing.pos (h : Closing s fp dir cnt e) : 0 < cnt := by
  have := mem_sfnOffsets (mem_visibleSfn (mem_visibleEntries.mp h.entry).2)
  rw [sfnSize] at this
  refine Nat.pos_of_ne_zero fun hz => ?_
  rw [hz] at this
  omega

theorem Closing.found (h : Closing s fp dir cnt e) {m off : ℕ} (hm : m ∈ dirMaps s dir)
    (hs : scanSfn scanSkips (fun curName => compareFat32 curName (handleName s fp) == 0)
      (blockByte s m) (sfnOffsets (sectorSize * cnt)) = some off) : (m, off) = e := by
  rw [scanSfn_eq] at hs
  have hname : compareFat32 (sfnName (blockByte s m) off) (handleName s fp) = 0 :=
    eq_of_beq (List.find?_some (p := fun off =>
      compareFat32 (sfnName (blockByte s m) off) (handleName s fp) == 0) hs)
  have hvis : (m, off) ∈ visibleEntries scanSkips (sectorSize * cnt) (blockByte s)
      (dirMaps s dir) := mem_visibleEntries.mpr ⟨hm, List.mem_of_find?_eq_some hs⟩
  rw [visibleEntries_scan] at hvis
  exact (h.named _ (List.mem_of_mem_filter hvis)).mp ((compareFat32_comm _ _).mp hname)

theorem closeFat32_updated (h : Closing s fp dir cnt e)
    (hu : WrittenBack (handleMaps s fp ++ dirMaps s dir) cnt (handleMaps s fp) s u)
    (hr : closeFat32 env fp u = some (.ok (), t)) :
    Updated s u t fp dir cnt e := by
  have hfiles : u.files = s.files := by rw [hu.rest]
  have hdentries : u.dentries = s.dentries := by rw [hu.rest]
  have hinodes : u.inodes = s.inodes := by rw [hu.rest]
  have hsbs : u.sbs = s.sbs := by rw [hu.rest]
  have hcache : u.pCache = s.pCache := by rw [hu.rest]
  have hdirMaps : dirMaps u dir = dirMaps s dir := by rw [dirMaps, hinodes, hdentries, dirMaps]
  have hunc : uncached u = uncached s := funext fun m => by rw [uncached, hu.maps_eq, uncached]
  have hsub : ∀ m ∈ dirMaps s dir, m ∈ handleMaps s fp ++ dirMaps s dir :=
    fun m hm => List.mem_append_right _ hm
  have hme := hsub e.1 h.mem
  rw [closeFat32, Prog.get_bind_run] at hr
  obtain ⟨entry, v, h1, hr⟩ := Prog.bind_ok_cases hr
  have hpar : getDentryParent env (u.files fp).fDentry u = some (.ok dir, u) := by
    rw [getDentryParent, Prog.get_bind_run, hfiles, hdentries, h.parent]
    rfl
  rw [follow, Prog.bind_ok (Prog.attempt_run hpar)] at h1
  cases h1
  split_ifs at hr with hself
  · cases hr
  rw [Prog.get_bind_run] at hr
  obtain ⟨o, v, h2, hr⟩ := Prog.bind_ok_cases hr
  cases o with
  | none => cases hr
  | some r =>
    obtain ⟨page, off⟩ := r
    rw [findSfn, Prog.get_bind_run, hsbs, hdentries, h.blksize, hdirMaps, hfiles] at h2
    obtain ⟨hv, m, hm, hp, hs⟩ := scanDir_found (hu.own h.own) hsub
      (fun m hm i hi => hu.bytes hi hm) (by rw [hcache, hunc]; exact h.room) h2
    obtain rfl := h.found hm hs
    dsimp only at hr
    rw [Prog.get_bind_run, hv.same.inodes, hv.same.dentries, hinodes, hdentries, hfiles] at hr
    have hc := updateSfn_changed hv.own h.pos (hsub m hm) hp hr
    have hlocal := putSfnFileSize_local cnt off (s.inodes (fileInode s fp)).iSize
    have haddr : ∀ n, (t.maps n).mapAddr = (s.maps n).mapAddr := fun n => by
      rw [hc.sameMaps, hv.addr, hu.maps_eq]
    have hval : ∀ i < sectorSize * cnt,
        putSfnFileSize (blockByte v m) off (s.inodes (fileInode s fp)).iSize i =
          putSfnFileSize (blockByte s m) off (s.inodes (fileInode s fp)).iSize i := by
      refine hlocal _ _ fun i hi => ?_
      rw [hv.bytes m (hsub m hm), hu.bytes hi (hsub m hm)]
    refine ⟨fun n hn i hi => ?_, fun i hi => ?_, fun n hn i hi => ?_⟩
    · have hne : n ≠ m := fun e' => h.apart n hn (e' ▸ hm)
      have hd := hc.disk n (List.mem_append_left _ hn) hne i hi
      rw [diskByte, haddr] at hd
      rw [hd, hv.disk]
    · have hd := hc.written i hi
      rw [diskByte, haddr] at hd
      rw [hd, ← hval i hi]
      rfl
    · rw [hc.bytes n (hsub n hn) i hi]
      split_ifs with e'
      · exact hval i hi
      · rw [hv.bytes n (hsub n hn), hu.bytes hi (hsub n hn)]

theorem fsClose_durable_iff (h : Closing s fp dir cnt e)
    (hr : fsClose env fp s = some (.ok (), t)) :
    Durable s t fp dir cnt e ↔ ∀ m ∈ handleMaps s fp, dirtyBlock s m = false →
      ∀ i < sectorSize * cnt, diskByte s m i = blockByte s m i := by
  rw [fsClose, Prog.get_bind_run, if_pos h.written] at hr
  obtain ⟨_, u, h2, hr⟩ := Prog.bind_ok_cases hr
  obtain ⟨_, v, h1, hr⟩ := Prog.bind_ok_cases hr
  have hflush := flushMaps_writtenBack h.own h.pos
    (fun m hm => List.mem_append_left _ hm) h2
  have hup := closeFat32_updated h hflush h1
  cases hr
  have hfile : ∀ m ∈ handleMaps s fp, ∀ i < sectorSize * cnt,
      readSectors v.sd (s.maps m).mapAddr i =
        if dirtyBlock s m = true then blockByte s m i else diskByte s m i := by
    intro m hm i hi
    rw [hup.file m hm i hi, hflush.disk m (List.mem_append_left _ hm) i hi]
    simp only [hm, true_and]
  constructor
  · intro hd m hm hclean i hi
    have hb := hd.blocks m hm i hi
    rw [← hb]
    refine Eq.symm ((hfile m hm i hi).trans ?_)
    rw [hclean, if_neg (by simp)]
  · intro hclean
    refine ⟨fun m hm i hi => ?_, ?_, fun m hm i hi hne => ?_⟩
    · refine (hfile m hm i hi).trans ?_
      split_ifs with hd
      · rfl
      · exact hclean m hm (by simpa using hd) i hi
    · have hoff : e.2 + sfnSize ≤ sectorSize * cnt :=
        mem_sfnOffsets (mem_visibleSfn (mem_visibleEntries.mp h.entry).2)
      rw [sfnSize] at hoff
      have hbytes : ∀ k < 4, readSectors v.sd (s.maps e.1).mapAddr (e.2 + 28 + k) =
          putDword (blockByte s e.1) (e.2 + 28) (s.inodes (fileInode s fp)).iSize (e.2 + 28 + k) :=
        fun k hk => hup.entry _ (by omega)
      exact (dword_congr hbytes).trans ((dword_put ..).trans (Nat.mod_eq_of_lt h.size))
    · refine (hup.dir m hm i hi).trans ?_
      split_ifs with e'
      · subst e'
        rw [putSfnFileSize, putDword, if_neg]
        rw [sfnSize] at hne
        omega
      · rfl

end Close

section Run

instance (maps : List ℕ) (cnt : ℕ) (s : FsSys) : Decidable (OwnBlocks maps cnt s) :=
  decidable_of_iff ((∀ m ∈ maps, (s.maps m).mapAddr + cnt ≤ uintRange) ∧
      (∀ m ∈ maps, ∀ n ∈ maps, m ≠ n → (s.maps m).mapAddr + cnt ≤ (s.maps n).mapAddr ∨
        (s.maps n).mapAddr + cnt ≤ (s.maps m).mapAddr) ∧
      ∀ m ∈ maps, ∀ p ∈ (s.maps m).mapPage.bind Except.toOption,
        p < s.brk ∧ (s.pages p).pSecAddr = (s.maps m).mapAddr ∧ (s.pages p).pSecCnt = cnt) <| by
    have hpage : ∀ m p, p ∈ (s.maps m).mapPage.bind Except.toOption ↔
        (s.maps m).mapPage = some (.ok p) := by
      intro m p
      rcases (s.maps m).mapPage with _ | _ | q <;> simp [Except.toOption]
    simp only [hpage]
    exact ⟨fun h => ⟨h.1, h.2.1, h.2.2⟩, fun h => ⟨h.fits, h.apart, h.page⟩⟩

instance (s : FsSys) (fp dir cnt : ℕ) (e : ℕ × ℕ) : Decidable (Closing s fp dir cnt e) :=
  decidable_of_iff ((s.files fp).fDirt = true ∧
      (s.dentries (s.files fp).fDentry).dParent = some dir ∧
      (s.sbs (s.dentries dir).dSb).sBlocksize = sectorSize * cnt ∧
      OwnBlocks (handleMaps s fp ++ dirMaps s dir) cnt s ∧
      (∀ m ∈ handleMaps s fp, m ∉ dirMaps s dir) ∧
      e ∈ visibleEntries lookupSkips (sectorSize * cnt) (blockByte s) (dirMaps s dir) ∧
      (∀ x ∈ visibleEntries lookupSkips (sectorSize * cnt) (blockByte s) (dirMaps s dir),
        compareFat32 (handleName s fp) (entryName (blockByte s) x) = 0 ↔ x = e) ∧
      s.pCache.size + (scannedMaps scanSkips (fun curName =>
        compareFat32 curName (handleName s fp) == 0) (sectorSize * cnt) (blockByte s)
          (dirMaps s dir)).countP (uncached s) ≤ pcacheCapacity ∧
      (s.inodes (fileInode s fp)).iSize < uintRange)
    ⟨fun ⟨h1, h2, h3, h4, h5, h6, h7, h8, h9⟩ => ⟨h1, h2, h3, h4, h5, h6, h7, h8, h9⟩,
      fun h => ⟨h.written, h.parent, h.blksize, h.own, h.apart, h.entry, h.named, h.room, h.size⟩⟩

theorem outcome_of_any {α : Type} {m : FsProg α} {s : FsSys} {q : α → FsSys → Bool}
    (h : (m s).any (fun r => r.1.toOption.any fun x => q x r.2) = true) :
    ∃ x u, m s = some (.ok x, u) ∧ q x u = true := by
  obtain ⟨⟨r, u⟩, hr, hq⟩ := (Option.any_eq_true _ _).mp h
  cases r with
  | error _ => cases hq
  | ok x => exact ⟨x, u, hr, hq⟩

def entryBytes (first clu size o : ℕ) : ℕ :=
  if o = 0 then first else if o < 11 then dummyChar8dot3 else if o = 26 then clu
    else if o = 29 then size / 2 ^ 8 else 0

def twoFilesTable : List ℕ :=
  [0x0FFFFFF8, 0x0FFFFFFF, fatItemEnd, 4, fatItemEnd, fatItemEnd, 0, 0]

/-- The file "A" has the clusters 3 and 4, the file "B" has the cluster 5. The page of the cluster 4
is dirty and the oldest in the page cache; the other pages are those of a file on another volume. -/
def twoFiles : FsSys :=
  { blankSys with
    sd := ⟨fun sec => if sec = 38 then tableBytes twoFilesTable else if sec = 16384 then fun o =>
        if o < 32 then entryBytes 65 3 8192 o else if o < 64 then entryBytes 66 5 4096 (o - 32) else 0
      else fun _ => 0, 0⟩
    brk := 401
    live := fun i => i < 401
    sbs := fun _ => { eightSectors with infoNextClu := 6 }
    inodes := fun i => if i = 1 then ⟨16392, 1, 8192, 2, false, false, [1], [11, 12], 0⟩
      else if i = 2 then ⟨16408, 1, 4096, 1, false, false, [2], [13], 0⟩
      else ⟨16384, 1, 0, 1, false, true, [0], [10], 0⟩
    dentries := fun d => if d = 0 then ⟨1, true, false, [1, 2], 0, 0, some 0, []⟩
      else ⟨0, false, false, [], 0, d, some 0, [96 + d]⟩
    maps := fun m => if m = 12 then ⟨16400, some (.ok 100)⟩
      else if m < 14 then ⟨16384 + 8 * (m - 10), none⟩
      else ⟨1000000 + 8 * m, if m = 400 then none else some (.ok m)⟩
    pages := fun p => if p = 100 then ⟨true, fun _ => 1, 4096, 16400, 8⟩
      else ⟨false, fun _ => 0, 4096, 1000000 + 8 * p, 8⟩
    dCache := ⟨3, [0, 1, 2], fun _ => []⟩
    iCache := ⟨3, [0, 1, 2], fun _ => []⟩
    pCache := ⟨125, (List.range 124).map (200 + ·) ++ [100], fun _ => []⟩ }

def openAndWrite : FsProg ℕ := do
  let fp ← dentryOpenFile soundEnv 2 (fModeReadMask ||| fModeWriteMask)
  fsWrite soundEnv fp [8]
  pure fp

/-- "A" is emptied, "B" gets its second cluster, and then the page that "A" had there is evicted. -/
def reuseCluster : FsProg Unit := do
  let _ ← dentryOpenFile soundEnv 1 fModeWriteMask
  let fp ← dentryOpenFile soundEnv 2 fModeAppend
  fsWrite soundEnv fp [7]
  fsClose soundEnv fp
  let _ ← getFspage soundEnv 400 4096

def closesWritten (fp : ℕ) (s : FsSys) : Bool :=
  decide (Closing s fp 0 8 (10, 32)) && ((handleMaps s fp).all (dirtyBlock s) &&
    (fsClose soundEnv fp s).any fun r => r.1.toOption.any fun _ => true)

theorem fsClose_durable_small : ∃ fp s t, openAndWrite twoFiles = some (.ok fp, s) ∧
    fsClose soundEnv fp s = some (.ok (), t) ∧ Durable s t fp 0 8 (10, 32) := by
  have hrun : (openAndWrite twoFiles).any
      (fun r => r.1.toOption.any fun fp => closesWritten fp r.2) = true := by decide +kernel
  obtain ⟨fp, s, h1, hq⟩ := outcome_of_any (q := closesWritten) hrun
  obtain ⟨hclosing, hq⟩ := Bool.and_eq_true_iff.mp hq
  obtain ⟨hdirty, hclose⟩ := Bool.and_eq_true_iff.mp hq
  obtain ⟨_, t, h2, -⟩ := outcome_of_any (q := fun _ _ => true) hclose
  refine ⟨fp, s, t, h1, h2, (fsClose_durable_iff (of_decide_eq_true hclosing) h2).mpr ?_⟩
  intro m hm hclean
  rw [List.all_eq_true.mp hdirty m hm] at hclean
  cases hclean

def staleBlock (fp : ℕ) (s t : FsSys) : Bool :=
  (handleMaps s fp).any fun m => readSectors t.sd (s.maps m).mapAddr 0 != blockByte s m 0

def closesStale (fp : ℕ) (s : FsSys) : Bool :=
  decide (Closing s fp 0 8 (10, 32)) &&
    (fsClose soundEnv fp s).any fun r => r.1.toOption.any fun _ => staleBlock fp s r.2

/-- The stale page of "A" has been written over the clean block of "B" before "B" is opened. -/
theorem fsClose_not_durable : ∃ fp s t,
    (do reuseCluster; openAndWrite : FsProg ℕ) twoFiles = some (.ok fp, s) ∧
    Closing s fp 0 8 (10, 32) ∧ fsClose soundEnv fp s = some (.ok (), t) ∧
    ¬ Durable s t fp 0 8 (10, 32) := by
  have hrun : ((do reuseCluster; openAndWrite : FsProg ℕ) twoFiles).any
      (fun r => r.1.toOption.any fun fp => closesStale fp r.2) = true := by decide +kernel
  obtain ⟨fp, s, h1, hq⟩ := outcome_of_any (q := closesStale) hrun
  obtain ⟨hclosing, hclose⟩ := Bool.and_eq_true_iff.mp hq
  obtain ⟨_, t, h2, hbad⟩ := outcome_of_any (q := fun _ t => staleBlock fp s t) hclose
  obtain ⟨m, hm, hne⟩ := List.any_eq_true.mp hbad
  refine ⟨fp, s, t, h1, of_decide_eq_true hclosing, h2, fun hd => ?_⟩
  exact bne_iff_ne.mp hne (hd.blocks m hm 0 (by decide))

end Run

end OurOS.Fs
