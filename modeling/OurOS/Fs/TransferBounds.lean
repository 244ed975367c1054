import OurOS.Fs.TailRun
import OurOS.Fs.Walk

namespace OurOS.Fs

def fileRoom (s : FsSys) (fp : ℕ) : ℕ := (fileMaps s fp).length * fileBlksize s fp

/-- A handle whose position fields agree, on a file whose blocks hold its size. -/
structure Extent (s : FsSys) (fp : ℕ) : Prop extends Positioned s fp where
  dataMap : (s.files fp).fDataMap = fileInode s fp
  sb : (s.inodes (fileInode s fp)).iSb = (s.dentries (s.files fp).fDentry).dSb
  blksize : fileBlksize s fp = 2 ^ (fileSb s fp).sBlockbits
  sector_le : sectorSize ≤ fileBlksize s fp
  blocks : fileBlocks s fp = (fileMaps s fp).length
  good : Blocks s (fileBlksize s fp) (fileMaps s fp)
  size_le : (s.files fp).fSize ≤ fileRoom s fp
  room_le : fileRoom s fp ≤ uintRange
  iSize_le : (s.files fp).fSize ≤ (s.inodes (fileInode s fp)).iSize

def ReadReaches (env : FsEnv) (s : FsSys) (fp len : ℕ) : Cursor ℕ → Prop :=
  (readTransfer env fp (fileBlksize s fp)).Reaches
    (startOf (advanced fp len s) fp (s.files fp).fCurOff len)

def WriteReaches (env : FsEnv) (s u : FsSys) (fp : ℕ) (buf : List ℕ) : Cursor (List ℕ) → Prop :=
  (writeTransfer env fp (fileBlksize u fp)).Reaches
    (startOf (advanced fp buf.length u) fp (s.files fp).fCurOff buf)

structure ReadBounds (env : FsEnv) (s : FsSys) (fp len : ℕ) : Prop where
  ok : ∀ bytes t, fsRead env fp len s = some (.ok bytes, t) →
    len ≤ (s.files fp).fSize - (s.files fp).fPos
  eof : (s.files fp).fSize - (s.files fp).fPos < len →
    fsRead env fp len s = some (.error errorEndOfFile, s)
  inside : ReadStarts s fp len → ∀ d, ReadReaches env s fp len d → d.maps ≠ []

/-- The last two fields are about the walk: it stays on the blocks of the file, and no other reason
than a block without a page keeps the call from coming back. -/
structure WriteBounds (env : FsEnv) (s : FsSys) (fp : ℕ) (buf : List ℕ) : Prop where
  ok : ∀ t, fsWrite env fp buf s = some (.ok (), t) →
    (s.files fp).fPos + buf.length ≤ (t.inodes (fileInode s fp)).iSize ∧
      (s.files fp).fPos + buf.length ≤ (t.files fp).fSize
  error : ∀ e t, fsWrite env fp buf s = some (.error e, t) → t.pages = s.pages ∧
    t.files = s.files ∧ (t.inodes (fileInode s fp)).iSize = (s.inodes (fileInode s fp)).iSize
  inside : ∀ u, WriteStarts env s fp buf u → ∀ d, WriteReaches env s u fp buf d → d.maps ≠ []
  returns : ∀ u, WriteStarts env s fp buf u → fsWrite env fp buf s = none →
    ∃ d, WriteReaches env s u fp buf d ∧ Transfer.Waits env (fileBlksize u fp) d

def readFits (s : FsSys) (fp len : ℕ) : Prop :=
  (s.files fp).fPos + len < uintRange ∧ (hasMode (s.files fp).fMode fModeReadMask = true ∨
    len ≤ (s.files fp).fSize - (s.files fp).fPos)

/-- The end of the write is a word, and it lies less than `2 ^ 31` bytes behind the last block. -/
def writeFits (s : FsSys) (fp n : ℕ) : Prop :=
  hasMode (s.files fp).fMode fModeWriteMask = true →
    (s.files fp).fPos + n < uintRange ∧ (s.files fp).fPos + n < fileRoom s fp + 2 ^ 31

section Start

variable {s u : FsSys} {fp size : ℕ}

structure Stretched (s u : FsSys) (fp size : ℕ) : Prop where
  file : u.files fp = { s.files fp with fSize := size }
  maps : ∃ new, fileMaps u fp = fileMaps s fp ++ new
  blksize : fileBlksize u fp = fileBlksize s fp
  good : Blocks u (fileBlksize s fp) (fileMaps u fp)
  pCache : u.pCache = s.pCache

theorem Extent.unstretched (h : Extent s fp) : Stretched s s fp (s.files fp).fSize :=
  ⟨rfl, ⟨[], (List.append_nil _).symm⟩, rfl, h.good, rfl⟩

theorem Stretched.start (h : Extent s fp) (hu : Stretched s u fp size) (n : ℕ) :
    ∃ b, mapsFrom (advanced fp n u) fp = (fileMaps u fp).drop b ∧ b < (fileMaps u fp).length ∧
      (s.files fp).fPos = b * fileBlksize s fp + (s.files fp).fCurOff := by
  obtain ⟨b, map, hb, hcur, hpos⟩ := h.cur
  obtain ⟨new, hnew⟩ := hu.maps
  have hlt := (List.getElem?_eq_some_iff.mp hb).1
  have hb' : (fileMaps u fp)[b]? = some map := by
    rw [hnew, List.getElem?_append_left hlt, hb]
  refine ⟨b, ?_, (List.getElem?_eq_some_iff.mp hb').1, hpos⟩
  rw [advanced_mapsFrom, mapsFrom, hu.file]
  simp only [hcur]
  have hdrop := dropWhile_eq_drop hu.good.nodup hb'
  rw [fileMaps, hu.file] at hdrop ⊢
  exact hdrop

variable {env : FsEnv} {β γ : Type} {n : ℕ} {rest : β}
  {T : Transfer env (fileBlksize u fp) β γ}

theorem Stretched.paged (h : Extent s fp) (hu : Stretched s u fp size) (rest : β) :
    Transfer.Paged (fileBlksize u fp) (fileMaps u fp)
      (startOf (advanced fp n u) fp (s.files fp).fCurOff rest) := by
  obtain ⟨b, hmaps, -, -⟩ := hu.start h n
  have hgood := hu.good
  refine ⟨fun m hm => List.mem_of_mem_drop (i := b) ?_, ?_⟩
  · rw [← hmaps]
    exact hm
  · rw [hu.blksize]
    exact ⟨hgood.nodup, hgood.small, hgood.page, hgood.inj⟩

theorem Stretched.loads (h : Extent s fp) (hu : Stretched s u fp size) (hc : Counted s) (rest : β) :
    Transfer.Loads (fileBlksize u fp) (fileMaps u fp)
      (startOf (advanced fp n u) fp (s.files fp).fCurOff rest) := by
  refine ⟨hu.paged h rest, ?_⟩
  rw [Counted, ← hu.pCache] at hc
  exact hc

theorem Stretched.ahead (h : Extent s fp) (hu : Stretched s u fp size) (n : ℕ) :
    (mapsFrom (advanced fp n u) fp).length * fileBlksize u fp + (s.files fp).fPos =
      fileRoom u fp + (s.files fp).fCurOff := by
  obtain ⟨b, hmaps, hlt, hpos⟩ := hu.start h n
  rw [hmaps, List.length_drop, fileRoom, hpos, hu.blksize, Nat.sub_mul]
  have hle := Nat.mul_le_mul_right (fileBlksize s fp) hlt.le
  omega

theorem Stretched.within (h : Extent s fp) (hu : Stretched s u fp size)
    (hroom : (s.files fp).fPos + T.count rest ≤ fileRoom u fp)
    (hword : (s.files fp).fPos + T.count rest < uintRange) :
    T.Within (fileMaps u fp) (startOf (advanced fp n u) fp (s.files fp).fCurOff rest) := by
  have hahead := hu.ahead h n
  obtain ⟨b, hmaps, hlt, hpos⟩ := hu.start h n
  refine ⟨hu.paged h rest, ?_, ?_, ?_, ?_⟩
  · rw [startOf, hmaps]
    exact List.ne_nil_of_length_pos (by rw [List.length_drop]; omega)
  · rw [hu.blksize]
    exact h.off_le
  · dsimp only [startOf]
    omega
  · dsimp only [startOf]
    omega

theorem Stretched.runs_past (h : Extent s fp) (hu : Stretched s u fp size)
    (hroom : fileRoom u fp < (s.files fp).fPos + T.count rest)
    (hword : (s.files fp).fPos + T.count rest < uintRange) :
    T.runs (startOf (advanced fp n u) fp (s.files fp).fCurOff rest) = none := by
  have hahead := hu.ahead h n
  obtain ⟨b, -, -, hpos⟩ := hu.start h n
  refine Transfer.runs_past (hu.paged h rest) ?_ ?_ ?_
  · rw [hu.blksize]
    exact h.off_le
  · dsimp only [startOf]
    omega
  · dsimp only [startOf]
    omega

end Start

section Read

variable {env : FsEnv} {s : FsSys} {fp len : ℕ}

theorem readStarts_of_ok {bytes : List ℕ} {t : FsSys}
    (h : fsRead env fp len s = some (.ok bytes, t)) : ReadStarts s fp len := by
  have hmode : hasMode (s.files fp).fMode fModeReadMask = true := by
    by_contra hm
    rw [fsRead_unreadable hm] at h
    cases h
  refine ⟨hmode, Nat.le_of_not_lt fun hsize => ?_⟩
  rw [fsRead_past hmode hsize] at h
  cases h

theorem ReadStarts.not_error (h : ReadStarts s fp len) (e : ℕ) (t : FsSys) :
    fsRead env fp len s ≠ some (.error e, t) := by
  intro he
  rw [h.runs] at he
  obtain ⟨_, hr⟩ := (readTransfer env fp _).ok he
  cases hr

theorem Extent.end_wraps (h : Extent s fp) (hlen : len < uintRange)
    (hwrap : uintRange ≤ (s.files fp).fPos + len) :
    ((s.files fp).fPos + len) % uintRange ≤ (s.files fp).fSize := by
  have hpos := h.pos_le
  have hsize := h.size_lt
  rw [Nat.mod_eq_sub_mod hwrap, Nat.mod_eq_of_lt (by omega)]
  omega

theorem readBounds_iff (h : Extent s fp) (hlen : len < uintRange) (env : FsEnv) :
    ReadBounds env s fp len ↔ readFits s fp len := by
  have hpos := h.pos_le
  have hsize := h.size_lt
  constructor
  · intro hb
    have heof := hb.eof
    by_cases hmode : hasMode (s.files fp).fMode fModeReadMask = true
    · refine ⟨Nat.lt_of_not_le fun hwrap => ?_, .inl hmode⟩
      have hstart : ReadStarts s fp len := ⟨hmode, h.end_wraps hlen hwrap⟩
      exact hstart.not_error _ _ (heof (by omega))
    · have hle : len ≤ (s.files fp).fSize - (s.files fp).fPos := by
        by_contra hgt
        have herr := heof (Nat.lt_of_not_le hgt)
        rw [fsRead_unreadable hmode] at herr
        cases herr
      exact ⟨by omega, .inr hle⟩
  · rintro ⟨hword, hmode⟩
    have hend : ((s.files fp).fPos + len) % uintRange = (s.files fp).fPos + len :=
      Nat.mod_eq_of_lt hword
    refine ⟨fun bytes t hok => ?_, fun hgt => ?_, fun hstart d hd => ?_⟩
    · have hfits := (readStarts_of_ok hok).fits
      omega
    · exact fsRead_past (hmode.resolve_right (Nat.not_le_of_lt hgt)) (by omega)
    · have hfits := hstart.fits
      have hroom := h.size_le
      have hwithin : (readTransfer env fp (fileBlksize s fp)).Within (fileMaps s fp)
          (startOf (advanced fp len s) fp (s.files fp).fCurOff len) :=
        h.unstretched.within h (show (s.files fp).fPos + len ≤ _ by omega) hword
      exact (hwithin.reaches hd).some

end Read

section Expand

variable {env : FsEnv} {s u v : FsSys} {fp size : ℕ} {new : List ℕ}

theorem missing_word {room size : ℕ} (hlt : size < uintRange) (hroom : room ≤ uintRange) :
    size ≤ room + subWord size (room % uintRange) ∧
      (room < size → subWord size (room % uintRange) = size - room) := by
  simp only [subWord, uintRange] at *
  omega

theorem Extent.missing_bytes (h : Extent s fp) (hsize : (s.files fp).fSize < size)
    (hlt : size < uintRange) :
    expandBytes s fp size = subWord size (fileRoom s fp % uintRange) := by
  have hblk : nodeBlksize s (fileInode s fp) = fileBlksize s fp := by
    rw [nodeBlksize, h.sb]
    rfl
  have hblocks : (s.inodes (fileInode s fp)).iBlocks = (fileMaps s fp).length := h.blocks
  rw [expandBytes_word hsize.le hlt, hblk, hblocks]
  rfl

theorem Extent.bits_le (h : Extent s fp) : (fileSb s fp).sBlockbits ≤ 30 := by
  have hlt := h.blksize_lt
  rw [h.blksize] at hlt
  exact Nat.le_of_lt_succ ((Nat.pow_lt_pow_iff_right one_lt_two).mp hlt)

theorem Extent.grown (h : Extent s fp) (g : Grown (fileInode s fp) s v new) :
    Stretched s (resized fp size v) fp size := by
  have hmaps := g.maps_resized h.dataMap size
  have hgood := g.good h.good
  refine ⟨g.file_resized size, ⟨new, hmaps⟩, g.blksize_resized size, ?_, g.pCache⟩
  rw [hmaps]
  exact ⟨hgood.nodup, hgood.small, hgood.page, hgood.inj⟩

theorem Extent.room_grown (h : Extent s fp) (g : Grown (fileInode s fp) s v new) (size : ℕ) :
    fileRoom (resized fp size v) fp = fileRoom s fp + new.length * fileBlksize s fp := by
  rw [fileRoom, g.maps_resized h.dataMap, g.blksize_resized, List.length_append, Nat.add_mul]
  rfl

theorem Extent.missing_blocks (h : Extent s fp) {bytes : ℕ} (hlt : bytes < 2 ^ 31) :
    expandBlks (s.sbs (s.inodes (fileInode s fp)).iSb) bytes = blocksFor bytes (fileBlksize s fp) ∧
      (s.inodes (fileInode s fp)).iBlocks + blocksFor bytes (fileBlksize s fp) < uintRange := by
  have hsb : s.sbs (s.inodes (fileInode s fp)).iSb = fileSb s fp := congrArg s.sbs h.sb
  have hblocks : (s.inodes (fileInode s fp)).iBlocks = (fileMaps s fp).length := h.blocks
  have hblk : fileBlksize s fp < 2 ^ 31 := h.blksize_lt
  have hword : uintRange = 2 ^ 31 + 2 ^ 31 := by decide
  constructor
  · rw [hsb]
    exact expandBlks_eq h.blksize h.bits_le
      (show bytes + fileBlksize s fp ≤ uintRange by omega)
  · have hnum : blocksFor bytes (fileBlksize s fp) ≤ bytes :=
      blocksFor_le h.blksize_pos (Nat.le_mul_of_pos_right bytes h.blksize_pos)
    have hroom : (fileMaps s fp).length * sectorSize ≤ uintRange :=
      (Nat.mul_le_mul_left _ h.sector_le).trans h.room_le
    rw [sectorSize] at hroom
    omega

theorem Extent.expanded (h : Extent s fp) (hsize : (s.files fp).fSize < size)
    (hlt : size < uintRange) {r : Except ℕ Unit} (hr : fileExpandTo env fp size s = some (r, u)) :
    ∃ v new, Grown (fileInode s fp) s v new ∧
      (r = .ok () ∧ u = resized fp size v ∧
          (size < fileRoom s fp + 2 ^ 31 → size ≤ fileRoom u fp) ∨
        (∃ e, r = .error e) ∧ u = v) := by
  obtain ⟨hcover, hexact⟩ := missing_word hlt h.room_le
  rw [fileExpandTo, Prog.get_bind_run, if_neg hsize.not_ge, h.missing_bytes hsize hlt] at hr
  generalize subWord size (fileRoom s fp % uintRange) = bytes at hr hcover hexact
  have hend : ∀ {v : FsSys} {new : List ℕ}, Grown (fileInode s fp) s v new →
      (Prog.modify fun x => (x.setInode (fileInode s fp) fun n => { n with iSize := size }).setFile
        fp fun f => { f with fSize := size } : FsProg Unit) v = some (r, u) →
        r = .ok () ∧ u = resized fp size v := by
    intro v new g hm
    simp only [Prog.modify_run, Option.some.injEq, Prod.mk.injEq] at hm
    refine ⟨hm.1.symm, hm.2.symm.trans ?_⟩
    rw [resized, show fileInode v fp = fileInode s fp by
      rw [fileInode, fileInode, g.files, g.dentries]]
  by_cases hmore : 0 < bytes ∧ bytes < 2 ^ 31
  · obtain ⟨hblks, hsmall⟩ := h.missing_blocks hmore.2
    rw [if_pos hmore, hblks] at hr
    rcases Prog.bind_cases hr with ⟨_, v, h1, hr⟩ | ⟨e, h1, rfl⟩
    · obtain ⟨new, g, -, hlen⟩ := expandFat32_grown hsmall h1
      obtain ⟨rfl, rfl⟩ := hend g hr
      have hroom := h.room_grown g size
      have hbytes : bytes ≤ new.length * fileBlksize s fp := by
        rw [hlen rfl]
        exact le_blocksFor_mul h.blksize_pos
      exact ⟨v, new, g, .inl ⟨rfl, rfl, fun _ => by omega⟩⟩
    · obtain ⟨new, g, -, -⟩ := expandFat32_grown hsmall h1
      exact ⟨u, new, g, .inr ⟨⟨e, rfl⟩, rfl⟩⟩
  · have g : Grown (fileInode s fp) s s [] := (refl s : SameObjects s s).grown _
    have hroom := h.room_grown g size
    rw [if_neg hmore] at hr
    obtain ⟨rfl, rfl⟩ := hend g hr
    rw [List.length_nil, Nat.zero_mul, Nat.add_zero] at hroom
    exact ⟨s, [], g, .inl ⟨rfl, rfl, fun _ => by omega⟩⟩

theorem Extent.expanded_far (h : Extent s fp) (hlt : size < uintRange)
    (hfar : fileRoom s fp + 2 ^ 31 ≤ size) :
    fileExpandTo env fp size s = some (.ok (), resized fp size s) := by
  have hle := h.size_le
  have hsize : (s.files fp).fSize < size := by omega
  obtain ⟨-, hexact⟩ := missing_word hlt h.room_le
  have hneg : ¬ (0 < expandBytes s fp size ∧ expandBytes s fp size < 2 ^ 31) := by
    rw [h.missing_bytes hsize hlt, hexact (by omega)]
    omega
  rw [fileExpandTo, Prog.get_bind_run, if_neg hsize.not_ge]
  dsimp only
  rw [if_neg hneg]
  rfl

end Expand

section Write

variable {env : FsEnv} {s t u : FsSys} {fp : ℕ} {buf : List ℕ}

theorem WriteStarts.not_error (h : WriteStarts env s fp buf u) (e : ℕ) (t : FsSys) :
    fsWrite env fp buf s ≠ some (.error e, t) := by
  intro he
  rw [h.runs] at he
  obtain ⟨_, hr⟩ := (writeTransfer env fp _).ok he
  cases hr

theorem WriteStarts.stretched (h : Extent s fp) (hw : WriteStarts env s fp buf u) :
    ∃ size, Stretched s u fp size ∧ (writeEnd s fp buf.length < fileRoom s fp + 2 ^ 31 →
      writeEnd s fp buf.length ≤ fileRoom u fp) := by
  have hlt : writeEnd s fp buf.length < uintRange := Nat.mod_lt _ (by decide)
  rcases hw.expand with ⟨hsize, hexp⟩ | ⟨hsize, rfl⟩
  · obtain ⟨v, new, g, ⟨-, rfl, hnear⟩ | ⟨⟨e, he⟩, -⟩⟩ := h.expanded hsize hlt hexp
    · exact ⟨_, h.grown g, hnear⟩
    · cases he
  · have hle := h.size_le
    exact ⟨_, h.unstretched, fun _ => by omega⟩

theorem Extent.write_error (h : Extent s fp) {e : ℕ}
    (hr : fsWrite env fp buf s = some (.error e, t)) : t.pages = s.pages ∧ t.files = s.files ∧
      (t.inodes (fileInode s fp)).iSize = (s.inodes (fileInode s fp)).iSize := by
  rcases fsWrite_inv hr with ⟨-, -, rfl⟩ | ⟨-, hsize, e', -, hexp⟩ | ⟨u, hw, -⟩
  · exact ⟨rfl, rfl, rfl⟩
  · obtain ⟨v, new, g, ⟨hok, -⟩ | ⟨-, rfl⟩⟩ := h.expanded hsize (Nat.mod_lt _ (by decide)) hexp
    · cases hok
    · exact ⟨g.pages, g.files, by rw [g.inode]⟩
  · exact absurd hr (hw.not_error e t)

theorem Extent.write_ok (h : Extent s fp) (hword : (s.files fp).fPos + buf.length < uintRange)
    (hr : fsWrite env fp buf s = some (.ok (), t)) :
    (s.files fp).fPos + buf.length ≤ (t.inodes (fileInode s fp)).iSize ∧
      (s.files fp).fPos + buf.length ≤ (t.files fp).fSize := by
  obtain ⟨-, hsame⟩ := fsWrite_sizes hr
  have hnode := hsame.iSize (fileInode s fp)
  have hfile := hsame.fSize fp
  rw [Nat.mod_eq_of_lt hword, writtenTo] at hnode hfile
  rw [hnode, hfile]
  split_ifs with hsize
  · rw [sizedTo_iSize, (sizedTo_file _ _ _ _ _).1, if_pos rfl, if_pos rfl]
    exact ⟨le_rfl, le_rfl⟩
  · have hle := h.iSize_le
    omega

theorem Extent.write_wraps (h : Extent s fp) (hend : writeEnd s fp buf.length ≤ (s.files fp).fSize)
    (hr : fsWrite env fp buf s = some (.ok (), t)) : (t.files fp).fSize < uintRange := by
  obtain ⟨-, hsame⟩ := fsWrite_sizes hr
  have hfile := hsame.fSize fp
  have hkept : ¬ (s.files fp).fSize < ((s.files fp).fPos + buf.length) % uintRange :=
    Nat.not_lt.mpr hend
  rw [writtenTo, if_neg hkept] at hfile
  rw [hfile]
  exact h.size_lt

theorem writeBounds_of_fits (h : Extent s fp) (hfits : writeFits s fp buf.length) (env : FsEnv) :
    WriteBounds env s fp buf := by
  have hinside : ∀ u, WriteStarts env s fp buf u → ∀ d, WriteReaches env s u fp buf d →
      d.maps ≠ [] := by
    intro u hw d hd
    obtain ⟨hword, hnear⟩ := hfits hw.mode
    have hend : writeEnd s fp buf.length = (s.files fp).fPos + buf.length := Nat.mod_eq_of_lt hword
    obtain ⟨size, hu, hroom⟩ := hw.stretched h
    rw [hend] at hroom
    have hwithin : (writeTransfer env fp (fileBlksize u fp)).Within (fileMaps u fp)
        (startOf (advanced fp buf.length u) fp (s.files fp).fCurOff buf) :=
      hu.within h (hroom hnear) hword
    exact (hwithin.reaches hd).some
  refine ⟨fun t hr => ?_, fun e t hr => h.write_error hr, hinside, fun u hw hnone => ?_⟩
  · exact h.write_ok (hfits (fsWrite_sizes hr).1).1 hr
  · rw [hw.runs] at hnone
    obtain ⟨d, hd, hend⟩ := Transfer.runs_none_iff.mp hnone
    exact ⟨d, hd, hend.resolve_left (hinside u hw d hd)⟩

theorem WriteBounds.comes_back (h : Extent s fp) (hc : Counted s)
    (hb : WriteBounds soundEnv s fp buf)
    (hw : WriteStarts soundEnv s fp buf u) : ∃ t, fsWrite soundEnv fp buf s = some (.ok (), t) := by
  cases hr : fsWrite soundEnv fp buf s with
  | none =>
    obtain ⟨size, hu, -⟩ := hw.stretched h
    have hloads := hu.loads (n := buf.length) h hc buf
    obtain ⟨d, hd, hwaits⟩ := hb.returns u hw hr
    exact absurd hwaits ((hloads.reaches soundEnv_reliable hd).not_waits soundEnv_reliable)
  | some p =>
    obtain ⟨r, t⟩ := p
    cases r with
    | ok a => exact ⟨t, rfl⟩
    | error e => exact absurd hr (hw.not_error e t)

theorem fits_of_writeBounds (h : Extent s fp) (hc : Counted s) (hlen : buf.length < uintRange)
    (hb : WriteBounds soundEnv s fp buf) : writeFits s fp buf.length := by
  intro hmode
  have hword : (s.files fp).fPos + buf.length < uintRange := by
    by_contra hwrap
    have hend := h.end_wraps hlen (Nat.le_of_not_lt hwrap)
    have hw : WriteStarts soundEnv s fp buf s := ⟨hmode, .inr ⟨hend, rfl⟩⟩
    obtain ⟨t, hr⟩ := hb.comes_back h hc hw
    have hle := (hb.ok t hr).2
    have hlt := h.write_wraps hend hr
    omega
  refine ⟨hword, Nat.lt_of_not_le fun hfar => ?_⟩
  have hend : writeEnd s fp buf.length = (s.files fp).fPos + buf.length := Nat.mod_eq_of_lt hword
  rw [← hend] at hfar hword
  have hle := h.size_le
  have hw : WriteStarts soundEnv s fp buf (resized fp (writeEnd s fp buf.length) s) :=
    ⟨hmode, .inl ⟨by omega, h.expanded_far hword hfar⟩⟩
  obtain ⟨t, hr⟩ := hb.comes_back h hc hw
  have g : Grown (fileInode s fp) s s [] := (refl s : SameObjects s s).grown _
  have hroom := h.room_grown g (writeEnd s fp buf.length)
  rw [List.length_nil, Nat.zero_mul, Nat.add_zero] at hroom
  have hpast : fileRoom (resized fp (writeEnd s fp buf.length) s) fp <
      (s.files fp).fPos + buf.length := by
    rw [hroom]
    omega
  have hnone := (h.grown g).runs_past (T := writeTransfer soundEnv fp _) (n := buf.length) h hpast
    (show (s.files fp).fPos + buf.length < uintRange by omega)
  rw [hw.runs, hnone] at hr
  cases hr

/-- Only for the last part, in which a call has to come back, does it matter that the walk over the
LRU list finds as many pages as the cache counts. -/
theorem transfer_bounds_iff (h : Extent s fp) {len : ℕ} (hlen : len < uintRange)
    (hbuf : buf.length < uintRange) :
    ((∀ env, ReadBounds env s fp len) ↔ readFits s fp len) ∧
      (writeFits s fp buf.length → ∀ env, WriteBounds env s fp buf) ∧
      (Counted s → (∀ env, WriteBounds env s fp buf) → writeFits s fp buf.length) :=
  ⟨⟨fun hb => (readBounds_iff h hlen soundEnv).mp (hb soundEnv),
      fun hf env => (readBounds_iff h hlen env).mpr hf⟩,
    fun hf => writeBounds_of_fits h hf,
    fun hc hb => fits_of_writeBounds h hc hbuf (hb soundEnv)⟩

end Write

def tenByteFile : FsSys := openBytes.setInode 0 fun n => { n with iSize := 10 }

theorem tenByteFile_extent : Extent tenByteFile 7 where
  cur := ⟨0, 1, rfl, rfl, rfl⟩
  off_le := by decide
  pos_le := by decide
  size_lt := by decide
  blksize_pos := by decide
  blksize_lt := by decide
  dataMap := rfl
  sb := rfl
  blksize := rfl
  sector_le := by decide
  blocks := rfl
  good := by
    refine ⟨List.nodup_singleton 1, fun m hm => ?_, fun m _ r hr => ?_, fun m _ n _ p hp => ?_⟩
    · obtain rfl := List.mem_singleton.mp hm
      exact (by decide : 1 < tenByteFile.brk)
    · cases hr
    · cases hp
  size_le := by decide
  room_le := by decide
  iSize_le := by decide

theorem transfer_bounds_small : (∀ env, ReadBounds env tenByteFile 7 3) ∧
    (∀ env, WriteBounds env tenByteFile 7 [1]) ∧
      ¬ ∀ env, ReadBounds env tenByteFile 7 (2 ^ 32 - 5) := by
  have hone : [1].length < uintRange := by decide
  obtain ⟨hread, hwrite, -⟩ :=
    transfer_bounds_iff tenByteFile_extent (show 3 < uintRange by decide) hone
  obtain ⟨hwrap, -⟩ :=
    transfer_bounds_iff tenByteFile_extent (show 2 ^ 32 - 5 < uintRange by decide) hone
  refine ⟨hread.mpr ⟨by decide, .inl (by decide)⟩, hwrite fun _ => ⟨by decide, by decide⟩, ?_⟩
  intro hb
  exact absurd (hwrap.mp hb).1 (by decide)

/-- From position 5 of ten bytes `2 ^ 32 - 5` bytes are read. -/
theorem transfer_not_bounded : ¬ ∀ (env : FsEnv) (s : FsSys) (fp len : ℕ), Extent s fp →
    hasMode (s.files fp).fMode fModeReadMask = true → len < uintRange →
    ReadBounds env s fp len := by
  intro h
  have hb := h soundEnv tenByteFile 7 (2 ^ 32 - 5) tenByteFile_extent (by decide) (by decide)
  have hstart : ReadStarts tenByteFile 7 (2 ^ 32 - 5) := ⟨by decide, by decide⟩
  exact hstart.not_error _ _ (hb.eof (by decide))

end OurOS.Fs
