import OurOS.Fs.Inode

namespace OurOS.Fs

def fModeReadMask : ℕ := 0x0001

def fModeWriteMask : ℕ := 0x0002

def fModeAppendMask : ℕ := 0x0004

def fModeDirMask : ℕ := 0x0008

def fModeAppend : ℕ := fModeAppendMask ||| (fModeReadMask ||| fModeWriteMask)

def hasMode (mode mask : ℕ) : Bool := mode &&& mask != 0

def subWord (x y : ℕ) : ℕ := (x + (uintRange - y)) % uintRange

def fileInode (s : FsSys) (fp : ℕ) : ℕ := (s.dentries (s.files fp).fDentry).dInode

def fileSb (s : FsSys) (fp : ℕ) : SuperBlock := s.sbs (s.dentries (s.files fp).fDentry).dSb

def fileLastBlkRemain (s : FsSys) (fp : ℕ) : ℕ :=
  let node := s.inodes (fileInode s fp)
  subWord (node.iBlocks * (s.sbs node.iSb).sBlocksize % uintRange) (s.files fp).fSize

def expandBytes (s : FsSys) (fp size : ℕ) : ℕ :=
  subWord (subWord size (s.files fp).fSize) (fileLastBlkRemain s fp)

def expandBlks (sb : SuperBlock) (expand : ℕ) : ℕ :=
  ((expand + sb.sBlocksize + (uintRange - 1)) % uintRange &&&
    (uintRange - 1 - subWord sb.sBlocksize 1)) >>> sb.sBlockbits

def mapsFrom (s : FsSys) (fp : ℕ) : List ℕ :=
  match (s.files fp).fCurMap with
  | none => []
  | some map => (s.inodes (s.files fp).fDataMap).iDataMap.dropWhile (· != map)

def getBytes (data : ℕ → ℕ) (off len : ℕ) : List ℕ := (List.range len).map fun i => data (off + i)

def putBytes (data : ℕ → ℕ) (off : ℕ) (bytes : List ℕ) : ℕ → ℕ := fun o =>
  if off ≤ o ∧ o < off + bytes.length then bytes.getD (o - off) 0 else data o

def writePage (page off : ℕ) (bytes : List ℕ) (s : FsSys) : FsSys :=
  s.setPage page fun p => { p with pDirt := true, pData := putBytes p.pData off bytes }

def setPosition (fp map off : ℕ) (s : FsSys) : FsSys :=
  s.setFile fp fun f => { f with fCurMap := some map, fCurOff := off }

def setDirt (fp : ℕ) (s : FsSys) : FsSys := s.setFile fp fun f => { f with fDirt := true }

section ReadWrite

variable (env : FsEnv)

/-- An error pointer from `get_fspage` is followed like a page. -/
def mustGetFspage (map blksize : ℕ) : FsProg ℕ := do
  match ← Prog.attempt (getFspage env map blksize) with
  | .ok page => pure page
  | .error _ => Prog.stuck

def readLoop (fp blksize : ℕ) : List ℕ → ℕ → ℕ → FsProg (List ℕ)
  | [], _, _ => Prog.stuck
  | map :: maps, curOff, len => do
    let page ← mustGetFspage env map blksize
    let s ← Prog.get
    let p := s.pages page
    if (curOff + len) % uintRange ≤ p.pPagesize then
      Prog.modify (setPosition fp map ((curOff + len) % uintRange))
      pure (getBytes p.pData curOff len)
    else
      let delta := subWord p.pPagesize curOff
      let rest ← readLoop fp blksize maps 0 (subWord len delta)
      pure (getBytes p.pData curOff delta ++ rest)

def fsRead (fp len : ℕ) : FsProg (List ℕ) := do
  let s ← Prog.get
  let f := s.files fp
  if !hasMode f.fMode fModeReadMask then Prog.throw errorAccessAuthority
  else if f.fSize < (f.fPos + len) % uintRange then Prog.throw errorEndOfFile
  else
    Prog.modify (·.setFile fp fun f => { f with fPos := (f.fPos + len) % uintRange })
    readLoop env fp (fileSb s fp).sBlocksize (mapsFrom s fp) f.fCurOff len

def fileExpandTo (fp size : ℕ) : FsProg Unit := do
  let s ← Prog.get
  let f := s.files fp
  if size ≤ f.fSize then pure ()
  else
    let node := fileInode s fp
    let expand := expandBytes s fp size
    if 0 < expand ∧ expand < 2 ^ 31 then
      expandFat32 env node (expandBlks (s.sbs (s.inodes node).iSb) expand)
    Prog.modify fun s => (s.setInode node fun n => { n with iSize := size }).setFile fp fun f =>
      { f with fSize := size }

def writeLoop (fp blksize : ℕ) : List ℕ → ℕ → List ℕ → FsProg Unit
  | [], _, _ => Prog.stuck
  | map :: maps, curOff, buf => do
    let page ← mustGetFspage env map blksize
    let s ← Prog.get
    let p := s.pages page
    if (curOff + buf.length) % uintRange ≤ p.pPagesize then
      Prog.modify fun s => setDirt fp (writePage page curOff buf s)
      Prog.modify (setPosition fp map ((curOff + buf.length) % uintRange))
    else
      let delta := subWord p.pPagesize curOff
      Prog.modify fun s => setDirt fp (writePage page curOff (buf.take delta) s)
      writeLoop fp blksize maps 0 (buf.drop delta)

def fsWrite (fp : ℕ) (buf : List ℕ) : FsProg Unit := do
  let s ← Prog.get
  let f := s.files fp
  if !hasMode f.fMode fModeWriteMask then Prog.throw errorAccessAuthority
  else
    if f.fSize < (f.fPos + buf.length) % uintRange then
      fileExpandTo env fp ((f.fPos + buf.length) % uintRange)
    Prog.modify (·.setFile fp fun f => { f with fPos := (f.fPos + buf.length) % uintRange })
    let s ← Prog.get
    writeLoop env fp (fileSb s fp).sBlocksize (mapsFrom s fp) f.fCurOff buf

end ReadWrite

inductive SeekFlag
  | cur
  | head
  | tail
deriving DecidableEq, Repr

/-- The walk of `fs_seek` over the block list; what is left to walk is compared as a signed word. -/
def seekWalk (blkSize : ℕ) : List ℕ → ℕ → Option ℕ × ℕ
  | [], cnt => (none, cnt)
  | map :: maps, cnt =>
    if cnt ≤ blkSize ∨ 2 ^ 31 ≤ cnt then (some map, cnt) else seekWalk blkSize maps (cnt - blkSize)

def fsSeek (fp : ℕ) (flag : SeekFlag) (offset : ℕ) : FsProg Unit := do
  let s ← Prog.get
  let f := s.files fp
  let base := match flag with
    | .cur => f.fPos
    | .head => 0
    | .tail => f.fSize
  -- `f_pos` is unsigned, so the test for a negative position never holds
  let pos := min ((base + offset) % uintRange) f.fSize
  let r := seekWalk (fileSb s fp).sBlocksize (s.inodes f.fDataMap).iDataMap pos
  Prog.modify (·.setFile fp fun f => { f with fPos := pos, fCurMap := r.1, fCurOff := r.2 })

end OurOS.Fs
