import OurOS.Fs.Scan

namespace OurOS.Fs

/-- The blocks `maps` have sectors of their own, and their pages are pages of these sectors. -/
structure OwnBlocks (maps : List ℕ) (cnt : ℕ) (s : FsSys) : Prop where
  fits : ∀ m ∈ maps, (s.maps m).mapAddr + cnt ≤ uintRange
  apart : ∀ m ∈ maps, ∀ n ∈ maps, m ≠ n →
    (s.maps m).mapAddr + cnt ≤ (s.maps n).mapAddr ∨ (s.maps n).mapAddr + cnt ≤ (s.maps m).mapAddr
  page : ∀ m ∈ maps, ∀ p, (s.maps m).mapPage = some (.ok p) →
    p < s.brk ∧ (s.pages p).pSecAddr = (s.maps m).mapAddr ∧ (s.pages p).pSecCnt = cnt

def diskByte (s : FsSys) (map i : ℕ) : ℕ := readSectors s.sd (s.maps map).mapAddr i

def dirtyBlock (s : FsSys) (map : ℕ) : Bool :=
  match (s.maps map).mapPage with
  | some (.ok page) => (s.pages page).pDirt
  | _ => false

section Blocks

variable {s t : FsSys} {maps : List ℕ} {cnt m n p : ℕ}

theorem OwnBlocks.inj (h : OwnBlocks maps cnt s) (hpos : 0 < cnt) (hm : m ∈ maps) (hn : n ∈ maps)
    (hp : (s.maps m).mapPage = some (.ok p)) (hq : (s.maps n).mapPage = some (.ok p)) : m = n := by
  by_contra hne
  have h1 := (h.page m hm p hp).2.1
  have h2 := (h.page n hn p hq).2.1
  have h3 := h.apart m hm n hn hne
  omega

theorem dirtyBlock_page (h : (s.maps m).mapPage = some (.ok p)) :
    dirtyBlock s m = (s.pages p).pDirt := by
  rw [dirtyBlock, h]

theorem dirtyBlock_unpaged (h : ∀ p, (s.maps m).mapPage ≠ some (.ok p)) : dirtyBlock s m = false := by
  rw [dirtyBlock]
  split
  · exact absurd ‹_› (h _)
  · rfl

theorem readSectors_written {sd : SdCard} {addr : ℕ} (h : addr + cnt ≤ uintRange) (data : ℕ → ℕ)
    (k : ℕ) {i : ℕ} (hi : i < sectorSize * cnt) :
    readSectors ⟨writeSectors sd addr data cnt, k⟩ addr i = data i := by
  have hq : i / sectorSize < cnt := Nat.div_lt_of_lt_mul hi
  have hdata : data (sectorSize * (addr + i / sectorSize - addr) + i % sectorSize) = data i := by
    rw [Nat.add_sub_cancel_left, Nat.div_add_mod]
  rw [readSectors]
  generalize i / sectorSize = q at hq hdata
  rw [Nat.mod_eq_of_lt (by omega)]
  change writeSectors sd addr data cnt _ _ = _
  rw [writeSectors_apply h, if_pos (by omega), hdata]

theorem flushed_pages (s : FsSys) (p q : ℕ) : (flushed s p).pages q =
    { s.pages q with pDirt := (s.pages q).pDirt && !decide (q = p) } := by
  have hdirt : { s.pages q with pDirt := (s.pages q).pDirt } = s.pages q := rfl
  rw [flushed]
  split_ifs with hd
  · by_cases e : q = p
    · subst e
      rw [setPage_self]
      simp
    · rw [setPage_of_ne _ _ e]
      simp [e]
  · by_cases e : q = p
    · subst e
      have hd : (s.pages q).pDirt = false := by simpa using hd
      simp [← hd]
    · simp [e]

theorem flushed_rest (s : FsSys) (p : ℕ) :
    flushed s p = { s with sd := (flushed s p).sd, pages := (flushed s p).pages } := by
  rw [flushed]
  split_ifs <;> rfl

theorem flushed_disk (h : OwnBlocks maps cnt s) (hm : m ∈ maps) (hn : n ∈ maps)
    (hp : (s.maps m).mapPage = some (.ok p)) {i : ℕ} (hi : i < sectorSize * cnt) :
    diskByte (flushed s p) n i =
      if n = m ∧ dirtyBlock s m = true then blockByte s n i else diskByte s n i := by
  obtain ⟨-, haddr, hcnt⟩ := h.page m hm p hp
  rw [dirtyBlock_page hp, diskByte, flushed]
  by_cases hd : (s.pages p).pDirt = true
  · simp only [hd, if_true, and_true]
    change readSectors ⟨writeSectors s.sd (s.pages p).pSecAddr (s.pages p).pData
      (s.pages p).pSecCnt, _⟩ (s.maps n).mapAddr i = _
    rw [haddr, hcnt]
    split_ifs with e
    · subst e
      rw [readSectors_written (h.fits n hm) _ _ hi, blockByte_page hp]
    · exact readSectors_apart (h.fits m hm) (h.fits n hn)
        (h.apart m hm n hn fun e' => e e'.symm) hi _
  · rw [if_neg hd, if_neg (fun hc => hd hc.2), diskByte]

end Blocks

section Flush

variable {env : FsEnv} {s t u : FsSys} {maps ms ns : List ℕ} {cnt m p : ℕ}

theorem flushFspage_done (h : flushFspage env (some (.ok p)) s = some (.ok (), t)) :
    t = flushed s p := by
  rw [flushFspage, Prog.get_bind_run] at h
  rw [flushed]
  dsimp only at h
  split_ifs at h ⊢ with hd
  · cases hf : sdFailure env s.sd (s.pages p).pSecCnt with
    | some i =>
      rw [Prog.bind_ok (by rw [sdWriteBlock, hf])] at h
      cases h
    | none =>
      rw [Prog.bind_ok (by rw [sdWriteBlock, hf])] at h
      cases h
      rfl
  · cases h
    rfl

/-- The pages of the blocks `ms` have been flushed. -/
structure WrittenBack (maps : List ℕ) (cnt : ℕ) (ms : List ℕ) (s t : FsSys) : Prop where
  rest : t = { s with sd := t.sd, pages := t.pages }
  pages : ∀ p, t.pages p = { s.pages p with pDirt := (t.pages p).pDirt }
  dirty : ∀ n ∈ maps, dirtyBlock t n = (dirtyBlock s n && !decide (n ∈ ms))
  disk : ∀ n ∈ maps, ∀ i < sectorSize * cnt, diskByte t n i =
    if n ∈ ms ∧ dirtyBlock s n = true then blockByte s n i else diskByte s n i

namespace WrittenBack

theorem maps_eq (h : WrittenBack maps cnt ms s t) : t.maps = s.maps := by rw [h.rest]

theorem brk_eq (h : WrittenBack maps cnt ms s t) : t.brk = s.brk := by rw [h.rest]

theorem own (h : WrittenBack maps cnt ms s t) (ho : OwnBlocks maps cnt s) : OwnBlocks maps cnt t := by
  refine ⟨?_, ?_, fun m hm p hp => ?_⟩
  · rw [h.maps_eq]
    exact ho.fits
  · rw [h.maps_eq]
    exact ho.apart
  · rw [h.maps_eq] at hp ⊢
    rw [h.brk_eq, h.pages p]
    exact ho.page m hm p hp

theorem bytes (h : WrittenBack maps cnt ms s t) {n i : ℕ} (hi : i < sectorSize * cnt) (hn : n ∈ maps) :
    blockByte t n i = blockByte s n i := by
  by_cases hp : ∃ p, (s.maps n).mapPage = some (.ok p)
  · obtain ⟨p, hp⟩ := hp
    rw [blockByte_page (by rw [h.maps_eq]; exact hp), blockByte_page hp, h.pages p]
  · have hp := not_exists.mp hp
    have hdisk := h.disk n hn i hi
    rw [dirtyBlock_unpaged hp, if_neg (by simp)] at hdisk
    rw [blockByte_disk (by rw [h.maps_eq]; exact hp), blockByte_disk hp]
    exact hdisk

theorem refl (maps : List ℕ) (cnt : ℕ) (s : FsSys) : WrittenBack maps cnt [] s s :=
  ⟨rfl, fun _ => rfl, fun _ _ => by simp, fun _ _ _ _ => by simp⟩

theorem trans (h : WrittenBack maps cnt ms s t) (h' : WrittenBack maps cnt ns t u) :
    WrittenBack maps cnt (ms ++ ns) s u where
  rest := by rw [h'.rest, h.rest]
  pages p := by rw [h'.pages, h.pages]
  dirty n hn := by
    rw [h'.dirty n hn, h.dirty n hn]
    simp only [List.mem_append, Bool.decide_or, Bool.not_or, Bool.and_assoc]
  disk n hn i hi := by
    rw [h'.disk n hn i hi, h.bytes hi hn, h.dirty n hn, h.disk n hn i hi]
    by_cases h1 : n ∈ ms <;> by_cases h2 : n ∈ ns <;> by_cases h3 : dirtyBlock s n = true <;>
      simp [h1, h2, h3]

end WrittenBack

theorem flushMap_writtenBack (ho : OwnBlocks maps cnt s) (hpos : 0 < cnt) (hm : m ∈ maps)
    (h : flushMap env m s = some (.ok (), t)) : WrittenBack maps cnt [m] s t := by
  rw [flushMap, Prog.get_bind_run] at h
  rcases hp : (s.maps m).mapPage with _ | e | p
  · rw [hp] at h
    cases h
    have hclean : dirtyBlock s m = false := dirtyBlock_unpaged (by simp [hp])
    refine ⟨rfl, fun _ => rfl, fun n hn => ?_, fun n hn i hi => ?_⟩
    · by_cases e : n = m
      · subst e
        simp [hclean]
      · simp [e]
    · rw [if_neg]
      rintro ⟨h1, h2⟩
      rw [List.mem_singleton.mp h1, hclean] at h2
      cases h2
  · rw [hp] at h
    cases h
  · rw [hp] at h
    obtain rfl := flushFspage_done h
    refine ⟨flushed_rest s p, fun q => by rw [flushed_pages], fun n hn => ?_, fun n hn i hi => ?_⟩
    · have hmaps : (flushed s p).maps = s.maps := by rw [flushed_rest]
      by_cases hq : ∃ q, (s.maps n).mapPage = some (.ok q)
      · obtain ⟨q, hq⟩ := hq
        have hiff : n = m ↔ q = p := by
          constructor
          · rintro rfl
            exact Except.ok.inj (Option.some.inj (hq.symm.trans hp))
          · rintro rfl
            exact ho.inj hpos hn hm hq hp
        rw [dirtyBlock_page (by rw [hmaps]; exact hq), dirtyBlock_page hq, flushed_pages]
        simp [hiff]
      · have hq := not_exists.mp hq
        rw [dirtyBlock_unpaged (by rw [hmaps]; exact hq), dirtyBlock_unpaged hq]
        rfl
    · rw [flushed_disk ho hm hn hp hi]
      simp only [List.mem_singleton]
      by_cases e : n = m
      · subst e
        rfl
      · simp [e]

theorem flushMaps_writtenBack (ho : OwnBlocks maps cnt s) (hpos : 0 < cnt) (hsub : ∀ m ∈ ms, m ∈ maps)
    (h : Prog.forEach (flushMap env) ms s = some (.ok (), t)) : WrittenBack maps cnt ms s t := by
  induction ms generalizing s with
  | nil =>
    cases h
    exact .refl ..
  | cons m ms ih =>
    obtain ⟨_, u, h1, h⟩ := Prog.bind_ok_cases h
    have hu := flushMap_writtenBack ho hpos (hsub m List.mem_cons_self) h1
    exact hu.trans (ih (hu.own ho) (fun n hn => hsub n (List.mem_cons_of_mem _ hn)) h)

end Flush

section Load

variable {env : FsEnv} {s t u : FsSys} {maps : List ℕ} {cnt m p : ℕ}

theorem getFspage_missed {blksize : ℕ} (hp : (s.maps m).mapPage = none)
    (hroom : s.pCache.size ≠ pcacheCapacity) (h : getFspage env m blksize s = some (.ok p, t)) :
    p = s.brk ∧ t = missed s m blksize := by
  rw [getFspage, Prog.get_bind_run] at h
  simp only [hp] at h
  obtain ⟨r, u, h1, h⟩ := Prog.bind_ok_cases h
  obtain ⟨r', hr, h1⟩ := Prog.attempt_cases h1
  cases hr
  cases r with
  | error _ => cases h
  | ok q =>
    cases h
    obtain ⟨rfl, v, hv, rfl⟩ := allocFspage_cases h1
    rw [pCacheRoom_run (by exact hroom)] at hv
    cases hv
    exact ⟨rfl, rfl⟩

/-- Blocks have been read into new pages, and no page has been evicted. -/
structure BlocksRead (maps : List ℕ) (cnt : ℕ) (s t : FsSys) : Prop where
  own : OwnBlocks maps cnt t
  same : SameFiles s t
  sector : t.sd.sector = s.sd.sector
  addr : ∀ n, (t.maps n).mapAddr = (s.maps n).mapAddr
  bytes : ∀ n ∈ maps, blockByte t n = blockByte s n

theorem BlocksRead.trans (h : BlocksRead maps cnt s t) (h' : BlocksRead maps cnt t u) : BlocksRead maps cnt s u :=
  ⟨h'.own, ⟨h'.same.inodes.trans h.same.inodes, h'.same.dentries.trans h.same.dentries,
    h'.same.sbs.trans h.same.sbs⟩, h'.sector.trans h.sector,
    fun n => (h'.addr n).trans (h.addr n), fun n hn => (h'.bytes n hn).trans (h.bytes n hn)⟩

theorem BlocksRead.disk (h : BlocksRead maps cnt s t) (n i : ℕ) : diskByte t n i = diskByte s n i := by
  rw [diskByte, diskByte, readSectors, readSectors, h.sector, h.addr]

theorem missed_blocksRead (ho : OwnBlocks maps cnt s) (hm : m ∈ maps)
    (hp : (s.maps m).mapPage = none) : BlocksRead maps cnt s (missed s m (sectorSize * cnt)) := by
  have hmaps := missed_maps s (sectorSize * cnt) m
  have hpages := missed_pages s (sectorSize * cnt) m
  have haddr : ∀ n, ((missed s m (sectorSize * cnt)).maps n).mapAddr = (s.maps n).mapAddr := by
    intro n
    rw [hmaps]
    split_ifs <;> rfl
  have hbrk : s.brk < (missed s m (sectorSize * cnt)).brk := Nat.lt_add_of_pos_right two_pos
  refine ⟨⟨?_, ?_, fun n hn q hq => ?_⟩, ⟨rfl, rfl, rfl⟩, rfl, haddr, fun n hn => ?_⟩
  · simpa only [haddr] using ho.fits
  · simpa only [haddr] using ho.apart
  · rw [hmaps] at hq
    rw [haddr, hpages]
    split_ifs at hq with e
    · cases hq
      subst e
      exact ⟨hbrk, by rw [if_pos rfl]; exact ⟨rfl, sectors_shiftRight cnt⟩⟩
    · obtain ⟨h1, h2⟩ := ho.page n hn q hq
      rw [if_neg h1.ne]
      exact ⟨h1.trans hbrk, h2⟩
  · funext i
    by_cases e : n = m
    · subst e
      rw [blockByte_page (p := s.brk) (by rw [hmaps, if_pos rfl]), blockByte_disk (by simp [hp]),
        hpages, if_pos rfl]
      rfl
    · rw [blockByte, blockByte, hmaps, if_neg e]
      rcases hq : (s.maps n).mapPage with _ | _ | q
      · rfl
      · rfl
      · simp only [hpages, if_neg (ho.page n hn q hq).1.ne]

/-- The page that `get_fspage` returns where nothing has to be evicted. -/
structure LoadedPage (maps : List ℕ) (cnt : ℕ) (s t : FsSys) (m p : ℕ) : Prop extends
    BlocksRead maps cnt s t where
  mapped : (t.maps m).mapPage = some (.ok p)
  size : t.pCache.size = s.pCache.size + (uncached s m).toNat
  cached : ∀ n, uncached t n = true → n ≠ m ∧ uncached s n = true

theorem getFspage_loadedPage (ho : OwnBlocks maps cnt s) (hm : m ∈ maps)
    (hroom : uncached s m = true → s.pCache.size ≠ pcacheCapacity)
    (h : getFspage env m (sectorSize * cnt) s = some (.ok p, t)) : LoadedPage maps cnt s t m p := by
  cases hp : (s.maps m).mapPage with
  | some r =>
    rw [getFspage_hit hp] at h
    cases r with
    | error _ => cases h
    | ok q =>
      cases h
      have hun : uncached s m = false := by simp [uncached, hp]
      refine ⟨⟨ho, ⟨rfl, rfl, rfl⟩, rfl, fun _ => rfl, fun _ _ => rfl⟩, hp, by simp [hun], ?_⟩
      intro n hn
      refine ⟨fun e => ?_, hn⟩
      rw [e, hun] at hn
      cases hn
  | none =>
    have hun : uncached s m = true := by simp [uncached, hp]
    obtain ⟨rfl, rfl⟩ := getFspage_missed hp (hroom hun) h
    have hmaps := missed_maps s (sectorSize * cnt) m
    refine ⟨missed_blocksRead ho hm hp, by rw [hmaps, if_pos rfl], by rw [hun]; rfl, fun n hn => ?_⟩
    rw [uncached, hmaps] at hn
    split_ifs at hn with e
    · simp at hn
    · exact ⟨e, hn⟩

end Load

end OurOS.Fs
