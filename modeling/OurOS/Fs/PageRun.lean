import OurOS.Fs.PageCache

namespace OurOS.Fs

inductive PageOp
  | get (map : ℕ)
  | write (map off : ℕ) (bytes : List ℕ)
  | flush (map : ℕ)
deriving DecidableEq, Repr

/-- The blocks of the open files, none of them read yet. -/
structure PageBoot where
  sys : FsSys
  files : List ℕ
  blksize : ℕ → ℕ
  empty : sys.pCache.size = 0
  null : ∀ m ∈ files, (sys.maps m).mapPage = none
  sized : ∀ m ∈ files, sectorSize ∣ blksize m
  fits : ∀ m ∈ files, (sys.maps m).mapAddr + blksize m >>> sectorShift ≤ uintRange
  apart : ∀ m ∈ files, ∀ n ∈ files, m ≠ n →
    (sys.maps m).mapAddr + blksize m >>> sectorShift ≤ (sys.maps n).mapAddr ∨
      (sys.maps n).mapAddr + blksize n >>> sectorShift ≤ (sys.maps m).mapAddr

def pageStep (env : FsEnv) (b : PageBoot) (s : FsSys) : PageOp → Option FsSys
  | .get map => Prog.exec (getFspage env map (b.blksize map)) s
  | .write map off bytes => Prog.exec (do
      let page ← getFspage env map (b.blksize map)
      Prog.modify (writePage page off bytes)) s
  | .flush map => Prog.exec (flushFspage env (s.maps map).mapPage) s

def noteBytes (val : ℕ → ℕ → ℕ) : PageOp → ℕ → ℕ → ℕ
  | .write map off bytes => Function.update val map (putBytes (val map) off bytes)
  | _ => val

def diskBytes (b : PageBoot) (map : ℕ) : ℕ → ℕ := readSectors b.sys.sd (b.sys.maps map).mapAddr

/-- The bytes of a block: what was written last, and the disk's where nothing was written. -/
def lastBytes (b : PageBoot) (ops : List PageOp) : ℕ → ℕ → ℕ := ops.foldl noteBytes (diskBytes b)

structure PageInv (b : PageBoot) (s : FsSys) (val : ℕ → ℕ → ℕ) : Prop where
  addr : ∀ m, (s.maps m).mapAddr = (b.sys.maps m).mapAddr
  page : ∀ m ∈ b.files, ∀ r, (s.maps m).mapPage = some r → ∃ p, r = .ok p ∧ p < s.brk ∧
    s.live p = true ∧ (s.pages p).pSecAddr = (b.sys.maps m).mapAddr ∧
      (s.pages p).pSecCnt = b.blksize m >>> sectorShift ∧
        ∀ i < b.blksize m, (s.pages p).pData i = val m i
  inj : ∀ m ∈ b.files, ∀ n ∈ b.files, ∀ p, (s.maps m).mapPage = some (.ok p) →
    (s.maps n).mapPage = some (.ok p) → m = n
  disk : ∀ m ∈ b.files, (s.maps m).mapPage = none → ∀ i < b.blksize m,
    readSectors s.sd (b.sys.maps m).mapAddr i = val m i

def hasRoom (s : FsSys) (map : ℕ) : Prop :=
  (s.maps map).mapPage = none → s.pCache.size ≠ pcacheCapacity

namespace PageInv

variable {env : FsEnv} {b : PageBoot} {s : FsSys} {val : ℕ → ℕ → ℕ} {map : ℕ}

theorem boot (b : PageBoot) : PageInv b b.sys (diskBytes b) := by
  refine ⟨fun _ => rfl, fun m hm r hr => ?_, fun m hm n _ p hp => ?_, fun m hm _ i _ => rfl⟩
  · simp [b.null m hm] at hr
  · simp [b.null m hm] at hp

theorem missed (hi : PageInv b s val) (hm : map ∈ b.files) (hnull : (s.maps map).mapPage = none) :
    PageInv b (missed s map (b.blksize map)) val := by
  have hmap : ∀ m, ((Fs.missed s map (b.blksize map)).maps m).mapPage =
      if m = map then some (.ok s.brk) else (s.maps m).mapPage := by
    intro m
    by_cases e : m = map
    · subst e
      simp [Fs.missed, FsSys.setMap, accessed, grabbed]
    · simp [Fs.missed, FsSys.setMap, addToPCache, FsSys.setPage, accessed, grabbed, e]
  have hpage : ∀ p, p ≠ s.brk → (Fs.missed s map (b.blksize map)).pages p = s.pages p :=
    fun p hp => Function.update_of_ne hp ..
  have hnew : (Fs.missed s map (b.blksize map)).pages s.brk =
      newFspage (s.maps map).mapAddr (b.blksize map) (readSectors s.sd (s.maps map).mapAddr) :=
    Function.update_self ..
  have hlive : ∀ p, p ≤ s.brk → s.live p = true ∨ p = s.brk →
      (Fs.missed s map (b.blksize map)).live p = true := by
    intro p hp hl
    change Function.update (Function.update s.live s.brk true) (s.brk + 1) true p = true
    rw [Function.update_of_ne (by omega)]
    rcases hl with hl | rfl
    · by_cases e : p = s.brk
      · rw [e, Function.update_self]
      · rw [Function.update_of_ne e, hl]
    · rw [Function.update_self]
  refine ⟨fun m => ?_, fun m hmf r hr => ?_, fun m hmf n hnf p h1 h2 => ?_,
    fun m hmf hn i hlt => ?_⟩
  · rw [← hi.addr m]
    by_cases e : m = map
    · subst e
      simp [Fs.missed, FsSys.setMap, addToPCache, FsSys.setPage, accessed, grabbed]
    · simp [Fs.missed, FsSys.setMap, addToPCache, FsSys.setPage, accessed, grabbed, e]
  · rw [hmap] at hr
    split_ifs at hr with e
    · subst e
      obtain rfl := Option.some.inj hr
      refine ⟨s.brk, rfl, ?_, hlive _ le_rfl (.inr rfl), ?_⟩
      · change s.brk < s.brk + 1 + 1
        omega
      · rw [hnew, hi.addr]
        exact ⟨rfl, rfl, hi.disk m hmf hnull⟩
    · obtain ⟨p, rfl, hlt, hl, h⟩ := hi.page m hmf r hr
      refine ⟨p, rfl, ?_, hlive p hlt.le (.inl hl), ?_⟩
      · change p < s.brk + 1 + 1
        omega
      · rw [hpage p hlt.ne]
        exact h
  · have hold : ∀ k ∈ b.files, (s.maps k).mapPage = some (.ok p) → p < s.brk := by
      intro k hk hp
      obtain ⟨q, hq, hlt, -⟩ := hi.page k hk _ hp
      cases hq
      exact hlt
    rw [hmap] at h1 h2
    split_ifs at h1 h2 with e1 e2 e2
    · exact e1.trans e2.symm
    · cases h1
      exact absurd (hold n hnf h2) (lt_irrefl _)
    · cases h2
      exact absurd (hold m hmf h1) (lt_irrefl _)
    · exact hi.inj m hmf n hnf p h1 h2
  · rw [hmap] at hn
    split_ifs at hn with e
    exact hi.disk m hmf hn i hlt

theorem getFspage_spec (hi : PageInv b s val) (he : Reliable env) (hm : map ∈ b.files)
    (hroom : hasRoom s map) : ∃ t p, getFspage env map (b.blksize map) s = some (.ok p, t) ∧
      PageInv b t val ∧ (t.maps map).mapPage = some (.ok p) := by
  cases hp : (s.maps map).mapPage with
  | some r =>
    obtain ⟨p, rfl, -⟩ := hi.page map hm r hp
    exact ⟨s, p, getFspage_hit hp _, hi, hp⟩
  | none =>
    refine ⟨_, s.brk, getFspage_miss he hp (hroom hp) _, hi.missed hm hp, ?_⟩
    simp [Fs.missed, FsSys.setMap, accessed, grabbed]

theorem write (hi : PageInv b s val) (hm : map ∈ b.files) {p : ℕ}
    (hp : (s.maps map).mapPage = some (.ok p)) (off : ℕ) (bytes : List ℕ) :
    PageInv b (writePage p off bytes s)
      (Function.update val map (putBytes (val map) off bytes)) := by
  refine ⟨hi.addr, fun m hmf r hr => ?_, hi.inj, fun m hmf hn i hlt => ?_⟩
  · obtain ⟨q, rfl, hlt, hl, h1, h2, h3⟩ := hi.page m hmf r hr
    refine ⟨q, rfl, hlt, hl, ?_⟩
    by_cases e : m = map
    · subst e
      have hqp : q = p := by
        cases Option.some.inj (hr.symm.trans hp)
        rfl
      subst hqp
      simp only [writePage, FsSys.setPage, Function.update_self]
      refine ⟨h1, h2, fun i hi => ?_⟩
      rw [putBytes, putBytes, h3 i hi]
    · have hqp : q ≠ p := fun h => e (hi.inj m hmf map hm q hr (h ▸ hp))
      simp only [writePage, FsSys.setPage, Function.update_of_ne hqp, Function.update_of_ne e]
      exact ⟨h1, h2, h3⟩
  · have e : m ≠ map := by
      rintro rfl
      exact absurd (hp.symm.trans hn) (by simp)
    rw [Function.update_of_ne e]
    exact hi.disk m hmf hn i hlt

theorem flushed (hi : PageInv b s val) (hm : map ∈ b.files) {p : ℕ}
    (hp : (s.maps map).mapPage = some (.ok p)) : PageInv b (flushed s p) val := by
  obtain ⟨q, hq, -, -, hsec, hcnt, -⟩ := hi.page map hm _ hp
  cases hq
  rw [Fs.flushed]
  split_ifs with hd
  · refine ⟨hi.addr, fun m hmf r hr => ?_, hi.inj, fun m hmf hn i hlt => ?_⟩
    · obtain ⟨q, rfl, hlt, hl, h⟩ := hi.page m hmf r hr
      refine ⟨q, rfl, hlt, hl, ?_⟩
      by_cases e : q = p
      · subst e
        simpa [FsSys.setPage] using h
      · simpa [FsSys.setPage, e] using h
    · have e : m ≠ map := by
        rintro rfl
        exact absurd (hp.symm.trans hn) (by simp)
      rw [← hi.disk m hmf hn i hlt]
      have hap := b.apart map hm m hmf e.symm
      have hsize : b.blksize m = sectorSize * (b.blksize m >>> sectorShift) := by
        rw [Nat.shiftRight_eq_div_pow]
        exact (Nat.mul_div_cancel' (b.sized m hmf)).symm
      refine readSectors_apart ?_ (b.fits m hmf) ?_ (hsize ▸ hlt) _
      · rw [hsec, hcnt]
        exact b.fits map hm
      · rw [hsec, hcnt]
        exact hap
  · exact hi

end PageInv

def keepsPages (b : PageBoot) (s : FsSys) : PageOp → Prop
  | .get map => map ∈ b.files ∧ hasRoom s map
  | .write map off bytes =>
    (map ∈ b.files ∧ hasRoom s map) ∧ off + bytes.length ≤ b.blksize map
  | .flush map => map ∈ b.files

section Run

variable {env : FsEnv} {b : PageBoot} {s : FsSys} {val : ℕ → ℕ → ℕ}

theorem pageStep_inv (he : Reliable env) (hi : PageInv b s val) {op : PageOp}
    (hop : keepsPages b s op) :
    ∃ t, pageStep env b s op = some t ∧ PageInv b t (noteBytes val op) := by
  cases op with
  | get map =>
    obtain ⟨t, p, h1, h2, -⟩ := hi.getFspage_spec he hop.1 hop.2
    exact ⟨t, Prog.exec_eq h1, h2⟩
  | write map off bytes =>
    obtain ⟨t, p, h1, h2, h3⟩ := hi.getFspage_spec he hop.1.1 hop.1.2
    refine ⟨writePage p off bytes t, ?_, h2.write hop.1.1 h3 off bytes⟩
    exact Prog.exec_eq ((Prog.bind_ok h1).trans rfl)
  | flush map =>
    cases hp : (s.maps map).mapPage with
    | none =>
      refine ⟨s, ?_, hi⟩
      rw [pageStep, hp]
      rfl
    | some r =>
      obtain ⟨p, rfl, -⟩ := hi.page map hop r hp
      refine ⟨flushed s p, ?_, hi.flushed hop hp⟩
      rw [pageStep, hp]
      exact Prog.exec_eq (flushFspage_run he s p)

theorem pageRun_inv (he : Reliable env) {ops : List PageOp} (hi : PageInv b s val)
    (hm : RunMeets (pageStep env b) (keepsPages b) s ops) :
    ∃ t, runOps (pageStep env b) s ops = some t ∧ PageInv b t (ops.foldl noteBytes val) := by
  induction ops generalizing s val with
  | nil => exact ⟨s, rfl, hi⟩
  | cons op ops ih =>
    obtain ⟨u, hu, hiu⟩ := pageStep_inv he hi hm.1
    obtain ⟨t, ht, hit⟩ := ih hiu (hm.2 u hu)
    exact ⟨t, Option.bind_eq_some_iff.mpr ⟨u, hu, ht⟩, hit⟩

def ReturnsPage (env : FsEnv) (s : FsSys) (map blksize : ℕ) (bytes : ℕ → ℕ) : Prop :=
  ∃ t p, getFspage env map blksize s = some (.ok p, t) ∧ t.live p = true ∧
    (t.pages p).pSecAddr = (t.maps map).mapAddr ∧ ∀ i < blksize, (t.pages p).pData i = bytes i

theorem pageRun_returns (he : Reliable env) {ops : List PageOp}
    (hm : RunMeets (pageStep env b) (keepsPages b) b.sys ops) :
    ∃ t, runOps (pageStep env b) b.sys ops = some t ∧
      (∀ m ∈ b.files, ∀ p, (t.maps m).mapPage = some (.ok p) → t.live p = true) ∧
      ∀ m ∈ b.files, hasRoom t m →
        ReturnsPage env t m (b.blksize m) (lastBytes b ops m) := by
  obtain ⟨t, ht, hi⟩ := pageRun_inv he (.boot b) hm
  refine ⟨t, ht, fun m hmf p hp => ?_, fun m hmf hroom => ?_⟩
  · obtain ⟨q, hq, -, hl, -⟩ := hi.page m hmf _ hp
    cases hq
    exact hl
  · obtain ⟨u, p, h1, h2, h3⟩ := hi.getFspage_spec he hmf hroom
    obtain ⟨q, hq, -, hl, hsec, -, hdata⟩ := h2.page m hmf _ h3
    cases hq
    exact ⟨u, p, h1, hl, hsec.trans (h2.addr m).symm, hdata⟩

end Run

def manyBlocks : ℕ := pcacheCapacity + 1

theorem longFile_fits {m : ℕ} (hm : m ∈ List.range manyBlocks) :
    8 * m + 4096 >>> sectorShift ≤ uintRange := by
  have hlt := List.mem_range.mp hm
  have h8 : 4096 >>> sectorShift = 8 := rfl
  simp only [h8, uintRange]
  simp only [manyBlocks, pcacheCapacity] at hlt
  omega

theorem longFile_apart {m n : ℕ} (hne : m ≠ n) :
    8 * m + 4096 >>> sectorShift ≤ 8 * n ∨ 8 * n + 4096 >>> sectorShift ≤ 8 * m := by
  have h8 : 4096 >>> sectorShift = 8 := rfl
  simp only [h8]
  omega

def longFile : PageBoot where
  sys := { blankSys with maps := fun m => ⟨8 * m, none⟩ }
  files := List.range manyBlocks
  blksize := fun _ => 4096
  empty := rfl
  null _ _ := rfl
  sized _ _ := by decide
  fits _ hm := longFile_fits hm
  apart _ _ _ _ hne := longFile_apart hne

theorem pageRun_returns_small : ∃ t, runOps (pageStep soundEnv longFile) longFile.sys
    [.write 3 5 [7]] = some t ∧ ReturnsPage soundEnv t 3 4096
      (lastBytes longFile [.write 3 5 [7]] 3) := by
  have hroom : hasRoom longFile.sys 3 := fun _ => by decide
  have hm : RunMeets (pageStep soundEnv longFile) (keepsPages longFile) longFile.sys
      [.write 3 5 [7]] := ⟨⟨⟨by decide, hroom⟩, by decide⟩, fun _ _ => trivial⟩
  have hnext : ∀ t ∈ runOps (pageStep soundEnv longFile) longFile.sys [.write 3 5 [7]],
      (t.maps 3).mapPage.isSome = true := by
    decide +kernel
  obtain ⟨t, ht, -, h⟩ := pageRun_returns soundEnv_reliable hm
  refine ⟨t, ht, h 3 (by decide) fun hnone => ?_⟩
  have := hnext t ht
  rw [hnone] at this
  exact absurd this (by decide)

def readAll : List PageOp := (List.range manyBlocks).map .get

theorem longRun_isSome : (runOps (pageStep soundEnv longFile) longFile.sys readAll).isSome = true := by
  decide +kernel

def longRun : FsSys := Option.get _ longRun_isSome

theorem longRun_eq : runOps (pageStep soundEnv longFile) longFile.sys readAll = some longRun :=
  Option.some_get _ ▸ rfl

theorem longRun_dangling : (longRun.maps 0).mapPage = some (.ok 0) ∧ longRun.live 0 = false := by
  decide +kernel

/-- After the 129th block has been read, the first one's `fs_map` still points to its freed page. -/
theorem pageRun_returns_freed :
    ¬ ∀ (env : FsEnv) (b : PageBoot) (ops : List PageOp) (t : FsSys), Reliable env →
      runOps (pageStep env b) b.sys ops = some t → ∀ m ∈ b.files,
        ReturnsPage env t m (b.blksize m) (lastBytes b ops m) := by
  intro h
  obtain ⟨u, p, h1, h2, -⟩ := h soundEnv longFile readAll longRun soundEnv_reliable longRun_eq 0
    (by decide)
  obtain ⟨hp, hfreed⟩ := longRun_dangling
  rw [getFspage_hit hp] at h1
  cases h1
  exact absurd (hfreed.symm.trans h2) (by decide)

end OurOS.Fs
