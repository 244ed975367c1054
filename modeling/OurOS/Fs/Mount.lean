import OurOS.Fs.Geometry
import OurOS.Fs.PathWalk

namespace OurOS.Fs

def errorUnknownFs : ℕ := 4

def noNextClu : ℕ := 0xFFFFFFFF

/-- The fields of the head of the boot record, by their places in its sector. -/
def dbrSecPerClu (dbr : ℕ → ℕ) : ℕ := dbr 13

def dbrReservedNum (dbr : ℕ → ℕ) : ℕ := word dbr 14

def dbrFatNum (dbr : ℕ → ℕ) : ℕ := dbr 16

def dbrFatSecsize (dbr : ℕ → ℕ) : ℕ := dword dbr 36

def dbrRootClu (dbr : ℕ → ℕ) : ℕ := dword dbr 44

def dptOffset : ℕ := 446

def dptSystemID (mbr : ℕ → ℕ) : ℕ := mbr (dptOffset + 4)

def dptBaseAddr (mbr : ℕ → ℕ) : ℕ := dword mbr (dptOffset + 8)

inductive FileSystemType
  | fat32
  | ext2
deriving DecidableEq, Repr

def systemIDFat32 (x : ℕ) : Bool := x == 0x0B || x == 0x0C || x == 0x1B || x == 0x1C

def systemIDExt2 (x : ℕ) : Bool := x == 0x83

def getFsType (systemID : ℕ) : Option FileSystemType :=
  if systemIDFat32 systemID then some .fat32
  else if systemIDExt2 systemID then some .ext2
  else none

def readNextClu (info dbr : ℕ → ℕ) : ℕ :=
  if dword info fsinfoNextClu = noNextClu then dbrRootClu dbr else dword info fsinfoNextClu

def readFatSec (baseSec : ℕ) (dbr : ℕ → ℕ) : ℕ := (baseSec + dbrReservedNum dbr) % uintRange

def readCluBase (baseSec : ℕ) (dbr : ℕ → ℕ) : ℕ :=
  (readFatSec baseSec dbr + dbrFatNum dbr * dbrFatSecsize dbr) % uintRange

/-- What is not set here is what the memory holds. -/
def initSb (baseSec : ℕ) (info dbr : ℕ → ℕ) (b : SuperBlock) : SuperBlock :=
  { b with
    sBlocksize := dbrSecPerClu dbr <<< sectorShift
    sBlockbits := sectorShift + countShifts 8 (dbrSecPerClu dbr)
    infoFsinfoSec := (baseSec + 1) % uintRange
    infoFatSec := readFatSec baseSec dbr
    infoCluBase := readCluBase baseSec dbr
    infoNextClu := readNextClu info dbr }

def sizeEntries (data : ℕ → ℕ) : List ℕ → ℕ → ℕ
  | [], iSize => iSize
  | off :: offs, iSize =>
    if data off = sfnMarkUnused then iSize
    else sizeEntries data offs ((iSize + sfnSize) % uintRange)

def sizePage (node page blksize : ℕ) (s : FsSys) : FsSys :=
  s.setInode node fun n =>
    { n with iSize := sizeEntries (s.pages page).pData (sfnOffsets blksize) n.iSize }

section Mount

variable (env : FsEnv)

/-- An unused entry ends the walk over its page only. -/
def sizeRoot (node blksize : ℕ) : List ℕ → FsProg Unit
  | [] => pure ()
  | map :: maps => do
    let page ← getFspage env map blksize
    Prog.modify (sizePage node page blksize)
    sizeRoot node blksize maps

def pinInode (node : ℕ) (s : FsSys) : FsSys := s.setInode node fun n => { n with iPinned := true }

def setRoot (sb entry : ℕ) (s : FsSys) : FsSys :=
  (s.setDentry entry fun d => { d with dPinned := true }).setSb sb fun b =>
    { b with sRoot := entry, mntParent := none, mntMntpoint := none }

def rootFat32 (sb rootClu : ℕ) : FsProg ℕ := do
  let rootInode ← allocInodeFat32 env sb rootClu 0 true
  Prog.modify (pinInode rootInode)
  let s ← Prog.get
  sizeRoot env rootInode (s.sbs sb).sBlocksize (s.inodes rootInode).iDataMap
  let rootDentry ← allocDentryFat32 env sb rootInode none [slash]
  Prog.modify (setRoot sb rootDentry)
  pure sb

/-- The information record is not looked at before a sector has been read. -/
def readSbFat32 (baseSec : ℕ) : FsProg ℕ := do
  let fsInfo ← kmalloc env
  match ← sdReadBlock env ((baseSec + 1) % uintRange) 1 with
  | none => Prog.throw errorReadSdcard
  | some info =>
    if fsInfo = none then Prog.stuck
    else
      match ← sdReadBlock env baseSec 1 with
      | none => Prog.throw errorReadSdcard
      | some dbr =>
        match ← kmalloc env with
        | none => Prog.throw errorNoMemory
        | some sb =>
          Prog.modify (·.setSb sb (initSb baseSec info dbr))
          rootFat32 env sb (dbrRootClu dbr)

/-- The buffer is freed on every way out; `kfree` of a null pointer does nothing. -/
def withBuf {α : Type} (m : FsProg α) : FsProg α := do
  match ← kmalloc env with
  | none => Prog.throw errorNoMemory
  | some buf =>
    let r ← Prog.attempt m
    Prog.modify (·.kfree buf)
    Prog.ofExcept r

def getSbFat32 (baseSec : ℕ) : FsProg ℕ := withBuf env (readSbFat32 env baseSec)

variable (getSbExt2 : ℕ → FsProg ℕ)

def getSb : FileSystemType → ℕ → FsProg ℕ
  | .fat32, baseSec => getSbFat32 env baseSec
  | .ext2, baseSec => getSbExt2 baseSec

def addSb (sb : ℕ) (s : FsSys) : FsSys := { s with sbList := s.sbList ++ [sb] }

/-- The first entry of the table is the only one that is looked at. -/
def readTable : FsProg Unit := do
  match ← sdReadBlock env 0 1 with
  | none => Prog.throw errorReadSdcard
  | some mbr =>
    match ← kmalloc env with
    | none => Prog.stuck
    | some _ =>
      Prog.modify fun s => { s with sbList := [] }
      if dptBaseAddr mbr ≠ 0 then
        match getFsType (dptSystemID mbr) with
        | none => Prog.throw errorUnknownFs
        | some type =>
          let sb ← getSb env getSbExt2 type (dptBaseAddr mbr)
          Prog.modify (addSb sb)

def readMBR : FsProg Unit := withBuf env (readTable env getSbExt2)

/-- The table of the lists is not looked at for a null pointer. -/
def initFscacheInfo : FsProg Fscache := do
  match ← kmalloc env with
  | none => Prog.stuck
  | some _ => pure ⟨0, [], fun _ => []⟩

def initFscache : FsProg Unit := do
  match ← kmalloc env with
  | none => Prog.throw errorNoMemory
  | some _ =>
    let d ← initFscacheInfo env
    Prog.modify fun s => { s with dCache := d }
    let i ← initFscacheInfo env
    Prog.modify fun s => { s with iCache := i }
    let p ← initFscacheInfo env
    Prog.modify fun s => { s with pCache := p }

def enterRoot (root : ℕ) (s : FsSys) : FsSys :=
  { dIncCount root { s with rootDentry := root } with pwdDentry := root }

/-- `init_fs` up to the point where the root is the current directory. Without a super block the head
of their list is taken for one. -/
def mountFs : FsProg Unit := do
  initFscache env
  readMBR env getSbExt2
  let s ← Prog.get
  match s.sbList with
  | [] => Prog.stuck
  | sb :: _ => Prog.modify (enterRoot (s.sbs sb).sRoot)

end Mount

end OurOS.Fs
