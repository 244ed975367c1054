import OurOS.Fs.BlockBytes
import OurOS.Fs.InodeSpec

namespace OurOS.Fs

/-- A byte array with a cursor and the number of blocks it is kept in; `none` is a byte that nothing
is known about. -/
structure ByteFile where
  bytes : ℕ → Option ℕ
  size : ℕ
  pos : ℕ
  blksize : ℕ
  blocks : ℕ

inductive FileOp
  | read (len : ℕ)
  | write (buf : List ℕ)
deriving DecidableEq, Repr

def blocksFor (size blksize : ℕ) : ℕ := (size + blksize - 1) / blksize

namespace ByteFile

def read (a : ByteFile) (len : ℕ) : Except ℕ (List (Option ℕ)) × ByteFile :=
  if a.size < a.pos + len then (.error errorEndOfFile, a)
  else (.ok ((List.range len).map fun k => a.bytes (a.pos + k)), { a with pos := a.pos + len })

def write (a : ByteFile) (buf : List ℕ) : ByteFile where
  bytes x := if a.pos ≤ x ∧ x < a.pos + buf.length then buf[x - a.pos]? else a.bytes x
  size := max a.size (a.pos + buf.length)
  pos := a.pos + buf.length
  blksize := a.blksize
  blocks := max a.blocks (blocksFor (max a.size (a.pos + buf.length)) a.blksize)

def step (a : ByteFile) : FileOp → Option (Except ℕ (List (Option ℕ)) × ByteFile)
  | .read len => some (a.read len)
  | .write buf => some (.ok [], a.write buf)

end ByteFile

def fileMaps (s : FsSys) (fp : ℕ) : List ℕ := (s.inodes (s.files fp).fDataMap).iDataMap

def fileBlocks (s : FsSys) (fp : ℕ) : ℕ := (s.inodes (fileInode s fp)).iBlocks

def fileBlksize (s : FsSys) (fp : ℕ) : ℕ := (fileSb s fp).sBlocksize

def fileByte (s : FsSys) (fp x : ℕ) : ℕ := bytesOf s (fileBlksize s fp) (fileMaps s fp) x

structure Handle (s : FsSys) (fp : ℕ) : Prop where
  readable : hasMode (s.files fp).fMode fModeReadMask = true
  writable : hasMode (s.files fp).fMode fModeWriteMask = true
  dataMap : (s.files fp).fDataMap = fileInode s fp
  sb : (s.inodes (fileInode s fp)).iSb = (s.dentries (s.files fp).fDentry).dSb
  blksize : fileBlksize s fp = 2 ^ (fileSb s fp).sBlockbits
  blocks : fileBlocks s fp = (fileMaps s fp).length
  bound : fileBlocks s fp * fileBlksize s fp ≤ 2 ^ 30
  iSize : (s.inodes (fileInode s fp)).iSize = (s.files fp).fSize
  size_le : (s.files fp).fSize ≤ fileBlocks s fp * fileBlksize s fp
  good : Blocks s (fileBlksize s fp) (fileMaps s fp)
  pos : ∃ b map, (fileMaps s fp)[b]? = some map ∧ (s.files fp).fCurMap = some map ∧
    (s.files fp).fPos = b * fileBlksize s fp + (s.files fp).fCurOff
  off_le : (s.files fp).fCurOff ≤ fileBlksize s fp

/-- The blocks that the transfer touches have pages or still fit into the page cache, the ones it
adds to the file included. -/
def noEviction (s : FsSys) (fp len : ℕ) : Prop :=
  let n := walked (fileBlksize s fp) ((s.files fp).fCurOff + len)
  s.pCache.size + (((mapsFrom s fp).take n).countP (uncached s) + (n - (mapsFrom s fp).length)) ≤
    pcacheCapacity

/-- Where the file has to grow, `expand` adds the blocks and leaves the contents of the others
alone. -/
def expandSucceeds (env : FsEnv) (s : FsSys) (fp size : ℕ) : Prop :=
  fileBlocks s fp * fileBlksize s fp < size →
    ∃ t, expandFat32 env (fileInode s fp) (blocksFor size (fileBlksize s fp) - fileBlocks s fp) s =
        some (.ok (), t) ∧
      ∀ m ∈ fileMaps s fp, uncached s m = true → ∀ i < fileBlksize s fp,
        readSectors t.sd (s.maps m).mapAddr i = readSectors s.sd (s.maps m).mapAddr i

theorem dropWhile_eq_drop {l : List ℕ} (hnd : l.Nodup) {b m : ℕ} (h : l[b]? = some m) :
    l.dropWhile (· != m) = l.drop b := by
  induction l generalizing b with
  | nil => simp at h
  | cons a l ih =>
    obtain ⟨hnot, hnd⟩ := List.nodup_cons.mp hnd
    cases b with
    | zero =>
      obtain rfl : a = m := by simpa using h
      simp
    | succ b =>
      have hm : l[b]? = some m := by simpa using h
      have hne : a ≠ m := by
        rintro rfl
        exact hnot (List.mem_of_getElem? hm)
      simp [hne, ih hnd hm]

section Arith

variable {k : ℕ}

theorem expandBlks_eq {sb : SuperBlock} (hb : sb.sBlocksize = 2 ^ sb.sBlockbits) {expand : ℕ}
    (hk : sb.sBlockbits ≤ 30) (he : expand + sb.sBlocksize ≤ uintRange) :
    expandBlks sb expand = blocksFor expand sb.sBlocksize := by
  have h1 : 1 ≤ 2 ^ sb.sBlockbits := Nat.one_le_two_pow
  have h2 : 2 ^ sb.sBlockbits ≤ 2 ^ 30 := Nat.pow_le_pow_right two_pos hk
  have h30 : (2 : ℕ) ^ 30 < uintRange := by decide
  have hsub : uintRange - 1 - subWord sb.sBlocksize 1 = uintRange - sb.sBlocksize := by
    rw [hb, subWord_eq h1 (by omega)]
    omega
  have hmod : (expand + sb.sBlocksize + (uintRange - 1)) % uintRange =
      expand + sb.sBlocksize - 1 := by
    rw [hb, show expand + 2 ^ sb.sBlockbits + (uintRange - 1) =
      expand + 2 ^ sb.sBlockbits - 1 + uintRange by omega, Nat.add_mod_right,
      Nat.mod_eq_of_lt (by omega)]
  have halign := lowerAlign_eq (x := expand + sb.sBlocksize - 1) (k := sb.sBlockbits)
    (by omega) (by omega)
  rw [expandBlks, hsub, hmod, blocksFor, Nat.shiftRight_eq_div_pow]
  rw [lowerAlign, ← hb] at halign
  rw [halign, ← hb, Nat.mul_div_cancel _ (by omega)]

theorem blocksFor_sub {size blksize blocks : ℕ} (hpos : 0 < blksize)
    (h : blocks * blksize ≤ size) :
    blocksFor (size - blocks * blksize) blksize = blocksFor size blksize - blocks := by
  rw [blocksFor, blocksFor, show size + blksize - 1 = size - blocks * blksize + blksize - 1 +
    blksize * blocks by rw [Nat.mul_comm blksize]; omega, Nat.add_mul_div_left _ _ hpos,
    Nat.add_sub_cancel]

theorem le_blocksFor_mul {size blksize : ℕ} (hpos : 0 < blksize) :
    size ≤ blocksFor size blksize * blksize := by
  have h := Nat.div_add_mod (size + blksize - 1) blksize
  have hlt := Nat.mod_lt (size + blksize - 1) hpos
  rw [blocksFor, Nat.mul_comm]
  omega

theorem blocksFor_pred_mul_lt {size blksize : ℕ} (hpos : 0 < blksize) (hsize : 0 < size) :
    (blocksFor size blksize - 1) * blksize < size := by
  have h := Nat.div_add_mod (size + blksize - 1) blksize
  rw [blocksFor, Nat.sub_mul, one_mul, Nat.mul_comm]
  omega

theorem blocksFor_le {size blksize n : ℕ} (hpos : 0 < blksize) (h : size ≤ n * blksize) :
    blocksFor size blksize ≤ n := by
  rw [blocksFor]
  refine Nat.lt_succ_iff.mp ((Nat.div_lt_iff_lt_mul hpos).mpr ?_)
  rw [Nat.succ_mul]
  omega

end Arith

section Position

variable {s t : FsSys} {fp : ℕ}

theorem Handle.blksize_pos (h : Handle s fp) : 0 < fileBlksize s fp := by
  rw [h.blksize]
  exact Nat.two_pow_pos _

theorem Handle.blkbits_le (h : Handle s fp) : (fileSb s fp).sBlockbits ≤ 30 := by
  obtain ⟨b, map, hb, -, -⟩ := h.pos
  have hlt : b < fileBlocks s fp := h.blocks ▸ (List.getElem?_eq_some_iff.mp hb).1
  have hle : fileBlksize s fp ≤ fileBlocks s fp * fileBlksize s fp :=
    Nat.le_mul_of_pos_left _ (by omega)
  have hpow : 2 ^ (fileSb s fp).sBlockbits ≤ 2 ^ 30 := h.blksize ▸ hle.trans h.bound
  exact (Nat.pow_le_pow_iff_right one_lt_two).mp hpow

structure Moved (s t : FsSys) (fp pos map off : ℕ) : Prop where
  same : SameFiles s t
  file : ∃ dirt, t.files fp = { s.files fp with
    fPos := pos, fCurMap := some map, fCurOff := off, fDirt := dirt }

variable {pos map off : ℕ}

theorem Moved.inode_eq (h : Moved s t fp pos map off) : fileInode t fp = fileInode s fp := by
  obtain ⟨d, hf⟩ := h.file
  rw [fileInode, fileInode, hf, h.same.dentries]

theorem Moved.sb_eq (h : Moved s t fp pos map off) : fileSb t fp = fileSb s fp := by
  obtain ⟨d, hf⟩ := h.file
  rw [fileSb, fileSb, hf, h.same.dentries, h.same.sbs]

theorem Moved.maps_eq (h : Moved s t fp pos map off) : fileMaps t fp = fileMaps s fp := by
  obtain ⟨d, hf⟩ := h.file
  rw [fileMaps, fileMaps, hf, h.same.inodes]

theorem Moved.blocks_eq (h : Moved s t fp pos map off) : fileBlocks t fp = fileBlocks s fp := by
  rw [fileBlocks, fileBlocks, h.inode_eq, h.same.inodes]

theorem Moved.blksize_eq (h : Moved s t fp pos map off) :
    fileBlksize t fp = fileBlksize s fp := by
  rw [fileBlksize, fileBlksize, h.sb_eq]

theorem Moved.byte_eq (h : Moved s t fp pos map off) (x : ℕ) :
    fileByte t fp x = bytesOf t (fileBlksize s fp) (fileMaps s fp) x := by
  rw [fileByte, h.blksize_eq, h.maps_eq]

theorem Handle.moved (h : Handle s fp) (hm : Moved s t fp pos map off)
    (hb : Blocks t (fileBlksize s fp) (fileMaps s fp))
    (hpos : ∃ j, (fileMaps s fp)[j]? = some map ∧ pos = j * fileBlksize s fp + off)
    (hoff : off ≤ fileBlksize s fp) : Handle t fp := by
  obtain ⟨d, hf⟩ := hm.file
  obtain ⟨j, hj, hp⟩ := hpos
  constructor
  · rw [hf]
    exact h.readable
  · rw [hf]
    exact h.writable
  · rw [hm.inode_eq, hf]
    exact h.dataMap
  · rw [hm.inode_eq, hm.same.inodes, hm.same.dentries, hf]
    exact h.sb
  · rw [hm.blksize_eq, hm.sb_eq]
    exact h.blksize
  · rw [hm.blocks_eq, hm.maps_eq]
    exact h.blocks
  · rw [hm.blocks_eq, hm.blksize_eq]
    exact h.bound
  · rw [hm.inode_eq, hm.same.inodes, hf]
    exact h.iSize
  · rw [hm.blocks_eq, hm.blksize_eq, hf]
    exact h.size_le
  · rw [hm.blksize_eq, hm.maps_eq]
    exact hb
  · rw [hm.blksize_eq, hm.maps_eq, hf]
    exact ⟨j, map, hj, rfl, hp⟩
  · rw [hm.blksize_eq, hf]
    exact hoff

structure Ahead (s : FsSys) (fp b : ℕ) : Prop where
  maps : mapsFrom s fp = (fileMaps s fp).drop b
  lt : b < (fileMaps s fp).length
  pos : (s.files fp).fPos = b * fileBlksize s fp + (s.files fp).fCurOff

theorem Handle.ahead (h : Handle s fp) : ∃ b, Ahead s fp b := by
  obtain ⟨b, map, hb, hcur, hpos⟩ := h.pos
  refine ⟨b, ?_, (List.getElem?_eq_some_iff.mp hb).1, hpos⟩
  rw [mapsFrom, hcur]
  exact dropWhile_eq_drop h.good.nodup hb

end Position

end OurOS.Fs
