import OurOS.Fs.Directory

namespace OurOS.Fs

def blockSizeExt2 : ℕ := 1024

def intWord (x : ℤ) : ℤ := x.bmod uintRange

def dwordAt (data : ℕ → ℕ) (i : ℤ) : ℕ := dword data (4 * i.toNat)

/-- The part of a super block's ext2 information that is used to find an inode. -/
structure InfoExt2 where
  sBasesec : ℕ
  info1stGdtSec : ℕ
  infoInodePgroup : ℕ
  infoInodeSize : ℕ

section Pages

variable (env : FsEnv)

def readInto (data : ℕ → ℕ) (addr count : ℕ) : FsProg (ℕ → ℕ) := do
  match ← sdReadBlock env addr count with
  | some data => pure data
  | none => pure data

/-- `find_page_sec_ext2` once it has its buffer, whose first bytes are whatever lies there. -/
def pageSec (blocksize : ℕ) (curPage : ℤ) (pageaddr : ℕ → ℕ) : FsProg ℕ := do
  let count := blocksize >>> sectorShift
  let data := env.stackByte
  if curPage < 12 then pure (pageaddr curPage.toNat)
  else
    let num := intWord (blocksize >>> 2)
    let curPage := curPage - 12
    if curPage < num then do
      let data ← readInto env data (pageaddr 12) count
      pure (dwordAt data curPage)
    else
      let curPage := curPage - num
      let num2 := intWord (num * num)
      if curPage < num2 then do
        let data ← readInto env data (pageaddr 13) count
        let addr := dwordAt data (curPage.tdiv num)
        let data ← readInto env data addr count
        pure (dwordAt data (curPage.tmod num))
      else
        let curPage := curPage - num2
        if curPage < intWord (num2 * num) then do
          let data ← readInto env data (pageaddr 14) count
          let addr := dwordAt data (curPage.tdiv num2)
          let data ← readInto env data addr count
          let addr := dwordAt data ((curPage.tdiv num2).tdiv num)
          let data ← readInto env data addr count
          pure (dwordAt data ((curPage.tdiv num2).tmod num))
        -- no range holds the index, and `ret` was never set
        else pure (dword env.stackByte 0)

def findPageSecExt2 (node : ℕ) (curPage : ℤ) (pageaddr : ℕ → ℕ) : FsProg ℕ := do
  let s ← Prog.get
  let blocksize := (s.sbs (s.inodes node).iSb).sBlocksize
  match ← kmalloc env with
  | none => pure (errValue errorNoMemory)
  | some data =>
    let ret ← pageSec env blocksize curPage pageaddr
    Prog.modify (·.kfree data)
    pure ret

def newInodeExt2 (info : InfoExt2) (sb ino size : ℕ) (isdir : Bool) : Inode where
  iIno := (ino + info.sBasesec) % uintRange
  iCount := 0
  iSize := size
  iBlocks := 0
  iPinned := false
  iIsdir := isdir
  iDentry := []
  iDataMap := []
  iSb := sb

def appendMap (node map addr : ℕ) (s : FsSys) : FsSys :=
  (s.setMap map fun _ => ⟨addr, none⟩).setInode node fun n => { n with iDataMap := n.iDataMap ++ [map] }

def buildMapExt2 (node : ℕ) (blockAddr : ℕ → ℕ) : List ℕ → FsProg Unit
  | [] => pure ()
  | i :: is => do
    match ← kmalloc env with
    | none => Prog.throw errorNoMemory
    | some map =>
      let addr ← findPageSecExt2 env node i blockAddr
      Prog.modify (appendMap node map addr)
      buildMapExt2 node blockAddr is

def groupSize : ℕ := 32

def allocInodeExt2 (info : InfoExt2) (sb ino size : ℕ) (isdir : Bool) : FsProg ℕ := do
  match ← kmalloc env with
  | none => Prog.throw errorNoMemory
  | some _ =>
    match ← kmalloc env with
    | none => Prog.throw errorNoMemory
    | some ret =>
      Prog.modify (·.setInode ret fun _ => newInodeExt2 info sb ino size isdir)
      let s ← Prog.get
      let perBlock := (s.sbs sb).sBlocksize >>> sectorShift
      let ino1 := (ino + (uintRange - 1)) % uintRange
      let group := ino1 / info.infoInodePgroup
      let groupPsec := sectorSize / groupSize
      match ← sdReadBlock env ((info.info1stGdtSec + group / groupPsec) % uintRange) 1 with
      | none => Prog.throw errorReadSdcard
      | some buffer =>
        let groupBaseBlk := dword buffer (group % groupPsec * groupSize)
        let groupBaseSec := (info.sBasesec + groupBaseBlk * perBlock) % uintRange
        let inodePsec := sectorSize / info.infoInodeSize
        let offSec := ino1 % info.infoInodePgroup / inodePsec
        match ← sdReadBlock env ((groupBaseSec + 2 * perBlock + offSec) % uintRange) 1 with
        | none => Prog.throw errorReadSdcard
        | some buffer =>
          let off := ino1 % inodePsec * info.infoInodeSize
          Prog.modify (·.setInode ret fun n =>
            { n with iBlocks := dword buffer (off + 28), iSize := dword buffer (off + 4) })
          buildMapExt2 env ret (fun i => dword buffer (off + 40 + 4 * i))
            (List.range (dword buffer (off + 28)))
          if ← addToICache ret then pure ret else Prog.throw errorCacheFull

/-- The two file systems make their dentries in the same way. -/
def allocDentryExt2 (sb node : ℕ) (parent : Option ℕ) (name : List ℕ) : FsProg ℕ :=
  allocDentryFat32 env sb node parent name

end Pages

def afterSameExt2 : List ℕ → List ℕ → List ℕ × List ℕ
  | p :: ps, q :: qs => if p ≠ 0 ∧ p = q then afterSameExt2 ps qs else (p :: ps, q :: qs)
  | ps, qs => (ps, qs)

def compareExt2 (a b : List ℕ) : ℤ :=
  let r := afterSameExt2 a b
  signedChar (r.1.headD 0) - signedChar (r.2.headD 0)

def ext2FileTypeDir : ℕ := 2

def dIno (data : ℕ → ℕ) (off : ℕ) : ℕ := dword data off

def dSize (data : ℕ → ℕ) (off : ℕ) : ℕ := word data (off + 4)

def dNameLen (data : ℕ → ℕ) (off : ℕ) : ℕ := data (off + 6)

def dType (data : ℕ → ℕ) (off : ℕ) : ℕ := data (off + 7)

def curNameExt2 (data : ℕ → ℕ) (off : ℕ) : List ℕ :=
  (List.range (dNameLen data off)).map fun i => data (off + 8 + i)

def nameMatches (name : List ℕ) (data : ℕ → ℕ) (off : ℕ) : Bool :=
  compareExt2 name (curNameExt2 data off) == 0

/-- The scan of one block, with the entries it reads; a record length of zero keeps it in its
place. -/
def scanExt2 (test : ℕ → Bool) (data : ℕ → ℕ) (blocksize : ℕ) :
    ℕ → ℕ → Option (List ℕ × Option ℕ)
  | 0, _ => none
  | n + 1, curEntry =>
    if curEntry < blocksize then
      if test curEntry then some ([curEntry], some curEntry)
      else (scanExt2 test data blocksize n (curEntry + dSize data curEntry)).map fun r =>
        (curEntry :: r.1, r.2)
    else some ([], none)

section Entries

variable (env : FsEnv)

def scanDirExt2 (name : List ℕ) (blocksize : ℕ) : List ℕ → FsProg (Option (ℕ × ℕ))
  | [] => pure none
  | map :: maps => do
    let page ← getFspage env map blocksize
    let s ← Prog.get
    let data := (s.pages page).pData
    match scanExt2 (nameMatches name data) data blocksize uintRange 0 with
    | none => Prog.stuck
    | some (_, some off) => pure (some (page, off))
    | some (_, none) => scanDirExt2 name blocksize maps

/-- The inode of an entry; an error pointer is followed by `alloc_dentry_ext2`. -/
def entryInode (info : InfoExt2) (sb : ℕ) (data : ℕ → ℕ) (off : ℕ) : FsProg ℕ :=
  follow (allocInodeExt2 env info sb (dIno data off) (dSize data off)
    (dType data off == ext2FileTypeDir))

def lookupExt2 (info : InfoExt2) (parentEntry : ℕ) (name : List ℕ) : FsProg ℕ := do
  let s ← Prog.get
  let sb := (s.dentries parentEntry).dSb
  match ← scanDirExt2 env name (s.sbs sb).sBlocksize (dirMaps s parentEntry) with
  | none => Prog.throw errorFileNotfound
  | some (page, off) =>
    let s ← Prog.get
    let node ← entryInode env info sb (s.pages page).pData off
    allocDentryExt2 env sb node (some parentEntry) name

def listEntryExt2 (info : InfoExt2) (entry page off : ℕ) : FsProg Unit := do
  let s ← Prog.get
  let sb := (s.dentries entry).dSb
  let data := (s.pages page).pData
  let node ← entryInode env info sb data off
  let curEntry ← follow (allocDentryExt2 env sb node (some entry) (curNameExt2 data off))
  Prog.modify (pinned curEntry (dType data off == ext2FileTypeDir))

end Entries

def listPageExt2 (body : ℕ → FsProg Unit) (page blocksize : ℕ) : ℕ → ℕ → FsProg (List ℕ)
  | 0, _ => Prog.stuck
  | n + 1, curEntry =>
    if curEntry < blocksize then do
      body curEntry
      let s ← Prog.get
      let rest ← listPageExt2 body page blocksize n
        (curEntry + dSize (s.pages page).pData curEntry)
      pure (curEntry :: rest)
    else pure []

def listDirExt2 (env : FsEnv) (info : InfoExt2) (fp : ℕ) : FsProg ℕ := do
  let s ← Prog.get
  let entry := (s.files fp).fDentry
  let blocksize := (s.sbs (s.dentries entry).dSb).sBlocksize
  Prog.forEach (fun map => do
    let page ← getFspage env map blocksize
    let _ ← listPageExt2 (listEntryExt2 env info entry page) page blocksize uintRange 0) (dirMaps s entry)
  pure entry

end OurOS.Fs
