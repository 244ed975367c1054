import OurOS.Fs.Ext2
import OurOS.Fs.PageCache

namespace OurOS.Fs

section Tree

variable (sd : SdCard) (basesec blocksize : ℕ) (blockAddr : ℕ → ℕ)

def startSector (blk : ℕ) : ℕ := (basesec + blk * (blocksize >>> sectorShift)) % uintRange

def pointerAt (blk i : ℕ) : ℕ := dword (readSectors sd (startSector basesec blocksize blk)) (4 * i)

/-- The block that the tree of an inode assigns to an index: twelve direct ones, then one, two and
three levels of blocks of pointers. -/
def blockOf (i : ℕ) : ℕ :=
  let n := blocksize / 4
  if i < 12 then blockAddr i
  else if i < 12 + n then pointerAt sd basesec blocksize (blockAddr 12) (i - 12)
  else if i < 12 + n + n ^ 2 then
    let k := i - (12 + n)
    pointerAt sd basesec blocksize (pointerAt sd basesec blocksize (blockAddr 13) (k / n)) (k % n)
  else
    let k := i - (12 + n + n ^ 2)
    pointerAt sd basesec blocksize (pointerAt sd basesec blocksize
      (pointerAt sd basesec blocksize (blockAddr 14) (k / n ^ 2)) (k / n % n)) (k % n)

end Tree

/-- Whatever the blocks of pointers hold, the result is the first sector of the block. -/
def FindsPage (env : FsEnv) (s : FsSys) (node basesec i : ℕ) (blockAddr : ℕ → ℕ) : Prop :=
  ∀ sd, ∃ t, findPageSecExt2 env node i blockAddr { s with sd := sd } = some (.ok (startSector
    basesec (s.sbs (s.inodes node).iSb).sBlocksize
    (blockOf sd basesec (s.sbs (s.inodes node).iSb).sBlocksize blockAddr i)), t)

section Filled

def filledCard (w : ℕ) : SdCard := ⟨fun _ o => if o % 4 = 0 then w else 0, 0⟩

variable {env : FsEnv} {s : FsSys} {w addr : ℕ}

theorem dword_filled (h : s.sd.sector = (filledCard w).sector) (addr i : ℕ) :
    dword (readSectors s.sd addr) (4 * i) = w := by
  have hbyte (o : ℕ) : readSectors s.sd addr o = if o % sectorSize % 4 = 0 then w else 0 := by
    rw [readSectors, h]
    rfl
  rw [dword, hbyte, hbyte, hbyte, hbyte, sectorSize, if_pos (by omega), if_neg (by omega),
    if_neg (by omega), if_neg (by omega)]
  omega

theorem readInto_filled (hsd : ∀ n, env.sdFails n = false)
    (h : s.sd.sector = (filledCard w).sector) (data : ℕ → ℕ) (addr count : ℕ) :
    ∃ buf t, readInto env data addr count s = some (.ok buf, t) ∧
      t.sd.sector = (filledCard w).sector ∧ ∀ i, dwordAt buf i = w := by
  have hnone : sdFailure env s.sd count = none := by simp [sdFailure, hsd]
  refine ⟨readSectors s.sd addr, accessed s count, ?_, h, fun i => dword_filled h addr _⟩
  rw [readInto, Prog.bind_ok (show sdReadBlock env addr count s =
    some (.ok (some (readSectors s.sd addr)), accessed s count) by rw [sdReadBlock, hnone]; rfl)]
  rfl

theorem pageSec_filled (hsd : ∀ n, env.sdFails n = false)
    (h : s.sd.sector = (filledCard w).sector) (blocksize : ℕ) {i : ℤ} (hi : 12 ≤ i)
    (pageaddr : ℕ → ℕ) : ∃ ret t, pageSec env blocksize i pageaddr s = some (.ok ret, t) ∧
      (ret = w ∨ ret = dword env.stackByte 0) := by
  rw [pageSec, if_neg (not_lt.mpr hi)]
  simp only
  split_ifs
  · obtain ⟨buf, t, h1, -, hw⟩ := readInto_filled hsd h env.stackByte (pageaddr 12)
      (blocksize >>> sectorShift)
    exact ⟨_, t, Prog.bind_ok h1, .inl (hw _)⟩
  · obtain ⟨buf, t, h1, ht, -⟩ := readInto_filled hsd h env.stackByte (pageaddr 13)
      (blocksize >>> sectorShift)
    rw [Prog.bind_ok h1]
    obtain ⟨buf, t, h2, -, hw⟩ := readInto_filled hsd ht buf _ (blocksize >>> sectorShift)
    exact ⟨_, t, Prog.bind_ok h2, .inl (hw _)⟩
  · obtain ⟨buf, t, h1, ht, -⟩ := readInto_filled hsd h env.stackByte (pageaddr 14)
      (blocksize >>> sectorShift)
    rw [Prog.bind_ok h1]
    obtain ⟨buf, t, h2, ht, -⟩ := readInto_filled hsd ht buf _ (blocksize >>> sectorShift)
    rw [Prog.bind_ok h2]
    obtain ⟨buf, t, h3, -, hw⟩ := readInto_filled hsd ht buf _ (blocksize >>> sectorShift)
    exact ⟨_, t, Prog.bind_ok h3, .inl (hw _)⟩
  · exact ⟨_, s, rfl, .inr rfl⟩

theorem blockOf_filled (basesec blocksize : ℕ) (blockAddr : ℕ → ℕ) {i : ℕ} (hi : 12 ≤ i) :
    blockOf (filledCard w) basesec blocksize blockAddr i = w := by
  have hptr (blk k : ℕ) : pointerAt (filledCard w) basesec blocksize blk k = w :=
    dword_filled (s := { blankSys with sd := filledCard w }) rfl _ k
  rw [blockOf, if_neg (not_lt.mpr hi)]
  simp only [hptr]
  split_ifs <;> rfl

end Filled

section Result

variable {env : FsEnv} {s t : FsSys} {node i : ℕ} {blockAddr : ℕ → ℕ}

variable (node i blockAddr) in
theorem findPageSecExt2_noMemory (h : env.kmallocFails s.brk = true) :
    ∃ t, findPageSecExt2 env node i blockAddr s = some (.ok (errValue errorNoMemory), t) := by
  rw [findPageSecExt2, Prog.get_bind_run]
  exact ⟨_, Prog.bind_ok (kmalloc_null h)⟩

theorem findPageSecExt2_memory (h : env.kmallocFails s.brk = false) {ret : ℕ}
    (hret : pageSec env (s.sbs (s.inodes node).iSb).sBlocksize i blockAddr (grabbed s) =
      some (.ok ret, t)) :
    findPageSecExt2 env node i blockAddr s = some (.ok ret, t.kfree s.brk) := by
  rw [findPageSecExt2, Prog.get_bind_run, Prog.bind_ok (kmalloc_grabs h)]
  simp only
  rw [Prog.bind_ok hret]
  rfl

variable (env s node blockAddr) in
theorem findPageSecExt2_direct (hi : i < 12) : ∃ t, findPageSecExt2 env node i blockAddr s =
    some (.ok (if env.kmallocFails s.brk then errValue errorNoMemory else blockAddr i), t) := by
  cases h : env.kmallocFails s.brk with
  | true => exact findPageSecExt2_noMemory node i blockAddr h
  | false =>
    have hret : pageSec env (s.sbs (s.inodes node).iSb).sBlocksize i blockAddr (grabbed s) =
        some (.ok (blockAddr i), grabbed s) := by
      rw [pageSec, if_pos (by omega)]
      rfl
    exact ⟨_, findPageSecExt2_memory h hret⟩

theorem shiftRight_blockSize (k : ℕ) :
    (blockSizeExt2 <<< k) >>> sectorShift = 2 ^ (k + 1) := by
  rw [blockSizeExt2, sectorShift, Nat.shiftLeft_eq, Nat.shiftRight_eq_div_pow, pow_succ]
  omega

theorem startSector_apart {k : ℕ} (hk : k ≤ 21) (basesec : ℕ) : ∃ d, 2 ≤ d ∧ d ≤ 2 ^ 22 ∧
    ∀ blk, startSector basesec (blockSizeExt2 <<< k) blk = (basesec + blk * d) % 2 ^ 32 := by
  refine ⟨2 ^ (k + 1), ?_, Nat.pow_le_pow_right two_pos (by omega), fun blk => ?_⟩
  · exact Nat.le_self_pow (Nat.succ_ne_zero k) 2
  · rw [startSector, shiftRight_blockSize, uintRange]

/-- A card filled with one pointer gives the wrong sector for one of the pointers 0, 1 and 2. -/
theorem FindsPage.direct (hsd : ∀ n, env.sdFails n = false) {k : ℕ} (hk : k ≤ 21)
    (hblk : (s.sbs (s.inodes node).iSb).sBlocksize = blockSizeExt2 <<< k) {basesec : ℕ}
    (h : FindsPage env s node basesec i blockAddr) : i < 12 := by
  by_contra hi
  have hi := not_lt.mp hi
  obtain ⟨d, hd, hd', hstart⟩ := startSector_apart hk basesec
  have hret (w : ℕ) : ∃ t, findPageSecExt2 env node i blockAddr { s with sd := filledCard w } =
      some (.ok ((basesec + w * d) % 2 ^ 32), t) := by
    obtain ⟨t, ht⟩ := h (filledCard w)
    rw [hblk, blockOf_filled _ _ _ hi, hstart] at ht
    exact ⟨t, ht⟩
  cases hmem : env.kmallocFails s.brk with
  | true =>
    have herr (w : ℕ) : (basesec + w * d) % 2 ^ 32 = errValue errorNoMemory := by
      obtain ⟨t, ht⟩ := hret w
      obtain ⟨u, hu⟩ := findPageSecExt2_noMemory (s := { s with sd := filledCard w }) node i
        blockAddr hmem
      rw [hu] at ht
      simp only [Option.some.injEq, Prod.mk.injEq, Except.ok.injEq] at ht
      exact ht.1.symm
    have h0 := herr 0
    have h1 := herr 1
    omega
  | false =>
    have hor (w : ℕ) : (basesec + w * d) % 2 ^ 32 = w ∨
        (basesec + w * d) % 2 ^ 32 = dword env.stackByte 0 := by
      obtain ⟨t, ht⟩ := hret w
      obtain ⟨ret, u, hu, hor⟩ := pageSec_filled (s := grabbed { s with sd := filledCard w }) hsd rfl
        (s.sbs (s.inodes node).iSb).sBlocksize (show (12 : ℤ) ≤ i by omega) blockAddr
      have hrun := findPageSecExt2_memory (s := { s with sd := filledCard w }) hmem hu
      rw [hrun] at ht
      simp only [Option.some.injEq, Prod.mk.injEq, Except.ok.injEq] at ht
      rw [← ht.1]
      exact hor
    have h0 := hor 0
    have h1 := hor 1
    have h2 := hor 2
    omega

theorem findsPage_iff (hsd : ∀ n, env.sdFails n = false) {k : ℕ} (hk : k ≤ 21)
    (hblk : (s.sbs (s.inodes node).iSb).sBlocksize = blockSizeExt2 <<< k) (basesec : ℕ) :
    FindsPage env s node basesec i blockAddr ↔
      i < 12 ∧ startSector basesec (blockSizeExt2 <<< k) (blockAddr i) =
        if env.kmallocFails s.brk then errValue errorNoMemory else blockAddr i := by
  constructor
  · intro h
    have hi := h.direct hsd hk hblk
    refine ⟨hi, ?_⟩
    obtain ⟨t, ht⟩ := h s.sd
    obtain ⟨u, hu⟩ := findPageSecExt2_direct env s node blockAddr hi
    rw [hblk, blockOf, if_pos hi, show { s with sd := s.sd } = s from rfl, hu] at ht
    simp only [Option.some.injEq, Prod.mk.injEq, Except.ok.injEq] at ht
    exact ht.1.symm
  · rintro ⟨hi, heq⟩ sd
    rw [hblk, blockOf, if_pos hi, heq]
    exact findPageSecExt2_direct env _ node blockAddr hi

end Result

def smallExt2 : FsSys :=
  { blankSys with sbs := fun _ => ⟨1024, 10, 0, none, none, 0, 0, 0, 0⟩ }

/-- Block 8 of a partition that starts eight sectors before the sector numbers wrap. -/
theorem findsPage_iff_small : FindsPage soundEnv smallExt2 0 (2 ^ 32 - 8) 3 (fun i => 5 + i) :=
  (findsPage_iff (k := 0) soundEnv_reliable.sd (by decide) rfl _).mpr ⟨by decide, by decide⟩

/-- Block 5 of a partition at sector 2048 starts at sector 2058, not at sector 5. -/
theorem findPageSecExt2_not_sector :
    ¬ FindsPage soundEnv smallExt2 0 2048 0 (fun _ => 5) ∧
      startSector 2048 1024 5 = 2058 ∧
      (findPageSecExt2 soundEnv 0 0 (fun _ => 5) smallExt2).map (·.1) = some (.ok 5) := by
  refine ⟨fun h => ?_, by decide, by decide +kernel⟩
  have h' := ((findsPage_iff (k := 0) soundEnv_reliable.sd (by decide) rfl 2048).mp h).2
  exact absurd h' (by decide)

end OurOS.Fs
