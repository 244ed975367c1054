import Mathlib.Data.BitVec
import OurOS.Lib.Prog
import OurOS.Utils

namespace OurOS.Fs

def sectorSize : ℕ := 512

def sectorShift : ℕ := 9

def errorEndOfFile : ℕ := 1

def errorNoMemory : ℕ := 2

def errorReadSdcard : ℕ := 3

def errorVfsmount : ℕ := 5

def errorNotDir : ℕ := 6

def errorFileNotfound : ℕ := 7

def errorCacheFull : ℕ := 8

def errorAccessAuthority : ℕ := 10

def maxErrno : ℕ := 4095

/-- The error code `-e` as an unsigned word. -/
def errValue (e : ℕ) : ℕ := uintRange - e

def isErrValue (x : ℕ) : Bool := uintRange - maxErrno ≤ x

structure FsPage where
  pDirt : Bool
  pData : ℕ → ℕ
  pPagesize : ℕ
  pSecAddr : ℕ
  pSecCnt : ℕ

/-- `mapPage` is a null pointer, an error pointer or a page. -/
structure FsMap where
  mapAddr : ℕ
  mapPage : Option (Except ℕ ℕ)

structure Inode where
  iIno : ℕ
  iCount : BitVec 32
  iSize : ℕ
  iBlocks : ℕ
  iPinned : Bool
  iIsdir : Bool
  iDentry : List ℕ
  iDataMap : List ℕ
  iSb : ℕ

/-- `dParent` is `none` where the pointer has been cleared. -/
structure Dentry where
  dCount : BitVec 32
  dPinned : Bool
  dMounted : Bool
  dSubdirs : List ℕ
  dSb : ℕ
  dInode : ℕ
  dParent : Option ℕ
  dName : List ℕ

/-- A super block with the FAT32 information and the mount record that belong to it; a mount record
is named by its super block. -/
structure SuperBlock where
  sBlocksize : ℕ
  sBlockbits : ℕ
  sRoot : ℕ
  mntParent : Option ℕ
  mntMntpoint : Option ℕ
  infoFsinfoSec : ℕ
  infoFatSec : ℕ
  infoCluBase : ℕ
  infoNextClu : ℕ

/-- `fCurMap` is `none` where the position has reached the head of the block list; `fDataMap` is the
inode whose block list the handle points to. -/
structure File where
  fSize : ℕ
  fMode : ℕ
  fPos : ℕ
  fCurOff : ℕ
  fCurMap : Option ℕ
  fDentry : ℕ
  fDataMap : ℕ
  fDirt : Bool

structure Fscache where
  size : ℕ
  lru : List ℕ
  hash : ℕ → List ℕ

structure SdCard where
  sector : ℕ → ℕ → ℕ
  accesses : ℕ

/-- Objects are named by the number of the `kmalloc` call that returned them. -/
structure FsSys where
  sd : SdCard
  brk : ℕ
  live : ℕ → Bool
  sbs : ℕ → SuperBlock
  sbList : List ℕ
  maps : ℕ → FsMap
  pages : ℕ → FsPage
  inodes : ℕ → Inode
  dentries : ℕ → Dentry
  files : ℕ → File
  dCache : Fscache
  iCache : Fscache
  pCache : Fscache
  rootDentry : ℕ
  pwdDentry : ℕ

/-- Which sector accesses and which `kmalloc` calls fail, the bytes found on the stack and those
that lie before a path string. -/
structure FsEnv where
  sdFails : ℕ → Bool
  kmallocFails : ℕ → Bool
  stackByte : ℕ → ℕ
  beforePath : ℕ → ℕ

abbrev FsProg (α : Type) : Type := Prog FsSys ℕ α

namespace FsSys

variable (s : FsSys)

def setMap (m : ℕ) (f : FsMap → FsMap) : FsSys :=
  { s with maps := Function.update s.maps m (f (s.maps m)) }

def setPage (p : ℕ) (f : FsPage → FsPage) : FsSys :=
  { s with pages := Function.update s.pages p (f (s.pages p)) }

def setInode (n : ℕ) (f : Inode → Inode) : FsSys :=
  { s with inodes := Function.update s.inodes n (f (s.inodes n)) }

def setDentry (d : ℕ) (f : Dentry → Dentry) : FsSys :=
  { s with dentries := Function.update s.dentries d (f (s.dentries d)) }

def setFile (fp : ℕ) (f : File → File) : FsSys :=
  { s with files := Function.update s.files fp (f (s.files fp)) }

def setSb (sb : ℕ) (f : SuperBlock → SuperBlock) : FsSys :=
  { s with sbs := Function.update s.sbs sb (f (s.sbs sb)) }

def kfree (p : ℕ) : FsSys := { s with live := Function.update s.live p false }

end FsSys

section Machine

variable (env : FsEnv)

/-- The result is `none` for a null pointer. -/
def kmalloc : FsProg (Option ℕ) := fun s =>
  if env.kmallocFails s.brk then some (.ok none, { s with brk := s.brk + 1 })
  else some (.ok (some s.brk),
    { s with brk := s.brk + 1, live := Function.update s.live s.brk true })

def readSectors (sd : SdCard) (addr : ℕ) : ℕ → ℕ := fun o =>
  sd.sector ((addr + o / sectorSize) % uintRange) (o % sectorSize)

def writeSectors (sd : SdCard) (addr : ℕ) (data : ℕ → ℕ) (count : ℕ) : ℕ → ℕ → ℕ :=
  (List.range count).foldl (fun sector i =>
    Function.update sector ((addr + i) % uintRange) fun o => data (sectorSize * i + o)) sd.sector

def sdFailure (sd : SdCard) (count : ℕ) : Option ℕ :=
  (List.range count).find? fun i => env.sdFails (sd.accesses + i)

def sdReadBlock (addr count : ℕ) : FsProg (Option (ℕ → ℕ)) := fun s =>
  match sdFailure env s.sd count with
  | some i => some (.ok none, { s with sd := { s.sd with accesses := s.sd.accesses + i + 1 } })
  | none => some (.ok (some (readSectors s.sd addr)),
      { s with sd := { s.sd with accesses := s.sd.accesses + count } })

def sdWriteBlock (data : ℕ → ℕ) (addr count : ℕ) : FsProg Bool := fun s =>
  match sdFailure env s.sd count with
  | some i => some (.ok false, { s with sd :=
      { sector := writeSectors s.sd addr data i, accesses := s.sd.accesses + i + 1 } })
  | none => some (.ok true, { s with sd :=
      { sector := writeSectors s.sd addr data count, accesses := s.sd.accesses + count } })

end Machine

def word (data : ℕ → ℕ) (off : ℕ) : ℕ := data off + data (off + 1) * 2 ^ 8

def dword (data : ℕ → ℕ) (off : ℕ) : ℕ :=
  data off + data (off + 1) * 2 ^ 8 + data (off + 2) * 2 ^ 16 + data (off + 3) * 2 ^ 24

def putDword (data : ℕ → ℕ) (off value : ℕ) : ℕ → ℕ := fun o =>
  if off ≤ o ∧ o < off + 4 then value / 2 ^ (8 * (o - off)) % 2 ^ 8 else data o

end OurOS.Fs
