import OurOS.Fs.ReadWrite

namespace OurOS.Fs

def fModeRead : ℕ := fModeReadMask

def dotName : List ℕ := [dotChar]

def dotdotName : List ℕ := [dotChar, dotChar]

def eof (s : FsSys) (fp : ℕ) : Bool := (s.files fp).fPos == (s.files fp).fSize

def newFile (s : FsSys) (entry mode : ℕ) : File where
  fSize := (s.inodes (s.dentries entry).dInode).iSize
  fMode := mode
  fPos := 0
  fCurOff := 0
  fCurMap := (s.inodes (s.dentries entry).dInode).iDataMap.head?
  fDentry := entry
  fDataMap := (s.dentries entry).dInode
  fDirt := false

def releaseFile (fp : ℕ) (s : FsSys) : FsSys := (dDecCount (s.files fp).fDentry s).kfree fp

def markDeleted (off : ℕ) (data : ℕ → ℕ) : ℕ → ℕ := Function.update data off sfnMarkDeleted

def renamed (name : List ℕ) (entry : ℕ) (s : FsSys) : FsSys :=
  s.setDentry entry fun d => { d with dName := name }

def truncated (node : ℕ) (s : FsSys) : FsSys :=
  let maps := (s.inodes node).iDataMap
  let s := s.setInode node fun n => { n with iBlocks := 1, iSize := 0, iDataMap := maps.take 1 }
  (maps.drop 1).foldl FsSys.kfree s

section Entries

variable (env : FsEnv)

/-- The page and the offset of the entry at which the scan of a directory stops. -/
def scanDir (skips : ℕ → Bool) (test : List ℕ → Bool) (blksize : ℕ) :
    List ℕ → FsProg (Option (ℕ × ℕ))
  | [] => pure none
  | map :: maps => do
    let page ← getFspage env map blksize
    let s ← Prog.get
    match scanSfn skips test (s.pages page).pData (sfnOffsets blksize) with
    | some off => pure (some (page, off))
    | none => scanDir skips test blksize maps

def dirMaps (s : FsSys) (entry : ℕ) : List ℕ := (s.inodes (s.dentries entry).dInode).iDataMap

/-- The scan that `clear_fat32`, `delete_fat32` and `close_fat32` make for a name. -/
def findSfn (parent sb : ℕ) (name : List ℕ) : FsProg (Option (ℕ × ℕ)) := do
  let s ← Prog.get
  scanDir env scanSkips (fun curName => compareFat32 curName name == 0) (s.sbs sb).sBlocksize
    (dirMaps s parent)

def updateSfn (page : ℕ) (f : (ℕ → ℕ) → ℕ → ℕ) : FsProg Unit := do
  Prog.modify (·.setPage page fun p => { p with pDirt := true, pData := f p.pData })
  flushFspage env (some (.ok page))

def openHandle (entry mode : ℕ) : FsProg ℕ := do
  match ← kmalloc env with
  | none => Prog.throw errorNoMemory
  | some ret =>
    Prog.modify (dIncCount entry)
    Prog.modify fun s => s.setFile ret fun _ => newFile s entry mode
    pure ret

/-- The loop of `read_dentry_from_sfn` over the directory `cur`. Where `fs_read` fails the bytes of
`sfn` stay as they are. -/
def findParentName (cur firstClu : ℕ) : ℕ → (ℕ → ℕ) → FsProg (Option (List ℕ))
  | 0, _ => Prog.stuck
  | n + 1, sfn => do
    let s ← Prog.get
    if eof s cur then pure none
    else do
      let sfn := match ← Prog.attempt (fsRead env cur sfnSize) with
        | .ok bytes => fun i => bytes.getD i 0
        | .error _ => sfn
      if sfn1stclu sfn 0 = firstClu then pure (some (sfnName sfn 0))
      else findParentName cur firstClu n sfn

/-- An error pointer that is followed. -/
def follow {α : Type} (m : FsProg α) : FsProg α := do
  match ← Prog.attempt m with
  | .ok a => pure a
  | .error _ => Prog.stuck

def readDotdotName (retEntry firstClu : ℕ) : FsProg Unit := do
  let cur ← follow (openHandle env retEntry fModeRead)
  match ← findParentName env cur firstClu uintRange env.stackByte with
  | some name => Prog.modify (renamed name retEntry)
  | none => pure ()
  Prog.modify (releaseFile cur)
  let s ← Prog.get
  if compareFat32 (s.dentries retEntry).dName dotdotName = 0 then Prog.throw errorFileNotfound

def readDentryFromSfn (data : ℕ → ℕ) (off parentEntry : ℕ) (name : List ℕ) : FsProg ℕ := do
  let s ← Prog.get
  let sb := (s.dentries parentEntry).dSb
  let firstClu := sfn1stclu data off
  let newNode ← match lookupICache s (cluToSec (s.sbs sb).infoCluBase firstClu (s.sbs sb).sBlockbits)
    with
    | some node => pure node
    | none => allocInodeFat32 env sb firstClu (sfnFileSize data off) (sfnAttr data off == sfnAttrDir)
  let retEntry ← allocDentryFat32 env sb newNode (some parentEntry) name
  if compareFat32 name dotdotName = 0 then readDotdotName env retEntry firstClu
  pure retEntry

def lookupSfn (parentEntry : ℕ) (name : List ℕ) : FsProg (Option (ℕ × ℕ)) := do
  let s ← Prog.get
  scanDir env lookupSkips (fun curName => compareFat32 name curName == 0)
    (s.sbs (s.dentries parentEntry).dSb).sBlocksize (dirMaps s parentEntry)

def lookupFat32 (parentEntry : ℕ) (name : List ℕ) : FsProg ℕ := do
  match ← lookupSfn env parentEntry name with
  | none => Prog.throw errorFileNotfound
  | some (page, off) =>
    let s ← Prog.get
    readDentryFromSfn env (s.pages page).pData off parentEntry name

def getDentryParent (entry : ℕ) : FsProg ℕ := do
  let s ← Prog.get
  match (s.dentries entry).dParent with
  | none => lookupFat32 env entry dotdotName
  | some parent => pure parent

end Entries

section Chains

variable (env : FsEnv)

def freeClu (fatBaseSec cluNum minClu : ℕ) : FsProg (ℕ × ℕ) := do
  let nextClu ← readFat env fatBaseSec cluNum
  if isErrValue nextClu then Prog.throw (uintRange - nextClu)
  writeFat env fatBaseSec cluNum fatItemFree
  pure (nextClu, if cluNum < minClu then cluNum else minClu)

/-- The rest of a chain is marked free; the walk does not stop by itself on a cycle. -/
def freeChain (fatBaseSec : ℕ) : ℕ → ℕ → ℕ → FsProg ℕ
  | 0, _, _ => Prog.stuck
  | n + 1, nextClu, minClu =>
    if nextClu = fatItemEnd then pure minClu
    else do
      let r ← freeClu env fatBaseSec nextClu minClu
      freeChain fatBaseSec n r.1 r.2

def lowerNextClu (sb minClu : ℕ) : FsProg Unit := do
  let s ← Prog.get
  if minClu < (s.sbs sb).infoNextClu then
    let _ ← Prog.attempt (updateNextClu env sb minClu)

def maxClu : ℕ := 0xFFFFFFFF

def clearSfn (node parent sb : ℕ) (name : List ℕ) : FsProg Unit := do
  let r ← match ← findSfn env parent sb name with
    | some (page, off) => Prog.attempt (updateSfn env page fun data => putSfnFileSize data off 0)
    | none => pure (.ok ())
  Prog.modify (truncated node)
  Prog.ofExcept r

/-- `clear_fat32` between its two changes of the inode's count. -/
def clearBlocks (node parent : ℕ) (name : List ℕ) : FsProg Unit := do
  let s ← Prog.get
  let sb := (s.inodes node).iSb
  let b := s.sbs sb
  let cluNum := secToClu b.infoCluBase (s.inodes node).iIno b.sBlockbits
  let nextClu ← readFat env b.infoFatSec cluNum
  if nextClu ≠ fatItemEnd then writeFat env b.infoFatSec cluNum fatItemEnd
  let minClu ← freeChain env b.infoFatSec uintRange nextClu maxClu
  lowerNextClu env sb minClu
  clearSfn env node parent sb name

def clearFat32 (node parent : ℕ) (name : List ℕ) : FsProg Unit := do
  Prog.modify (iIncCount node)
  let r ← Prog.attempt (clearBlocks env node parent name)
  Prog.modify (iDecCount node)
  Prog.ofExcept r

def deleteSfn (node parent sb : ℕ) (name : List ℕ) : FsProg Unit := do
  let r ← match ← findSfn env parent sb name with
    | some (page, off) => Prog.attempt (updateSfn env page (markDeleted off))
    | none => pure (.ok ())
  freeInode node
  Prog.ofExcept r

def deleteFat32 (node parent : ℕ) (name : List ℕ) : FsProg Unit := do
  let s ← Prog.get
  let sb := (s.inodes node).iSb
  let b := s.sbs sb
  let first ← freeClu env b.infoFatSec (secToClu b.infoCluBase (s.inodes node).iIno b.sBlockbits)
    maxClu
  let minClu ← freeChain env b.infoFatSec uintRange first.1 first.2
  lowerNextClu env sb minClu
  deleteSfn env node parent sb name

end Chains

section Handles

variable (env : FsEnv)

def atEnd (ret entry : ℕ) (s : FsSys) : FsSys :=
  let b := s.sbs (s.dentries entry).dSb
  s.setFile ret fun f =>
    { f with
      fPos := f.fSize
      fCurOff := subWord b.sBlocksize (fileLastBlkRemain s ret)
      fCurMap := (dirMaps s entry).getLast? }

def dentryOpenFile (entry mode : ℕ) : FsProg ℕ := do
  let ret ← openHandle env entry mode
  if hasMode mode fModeAppendMask then Prog.modify (atEnd ret entry)
  else if !hasMode mode fModeReadMask then
    let parent ← follow (getDentryParent env entry)
    let s ← Prog.get
    let _ ← Prog.attempt
      (clearFat32 env (s.dentries entry).dInode parent (s.dentries entry).dName)
    Prog.modify (·.setFile ret fun f => { f with fSize := 0 })
  pure ret

def closeFat32 (fp : ℕ) : FsProg Unit := do
  let s ← Prog.get
  let self := (s.files fp).fDentry
  let entry ← follow (getDentryParent env self)
  if entry = self then Prog.throw errorFileNotfound
  else do
    let s ← Prog.get
    match ← findSfn env entry (s.dentries entry).dSb (s.dentries self).dName with
    | some (page, off) =>
      let s ← Prog.get
      updateSfn env page fun data => putSfnFileSize data off (s.inodes (s.dentries self).dInode).iSize
    | none => Prog.throw errorFileNotfound

def flushMap (map : ℕ) : FsProg Unit := do
  let s ← Prog.get
  flushFspage env (s.maps map).mapPage

def fsClose (fp : ℕ) : FsProg Unit := do
  let s ← Prog.get
  if (s.files fp).fDirt then
    Prog.forEach (flushMap env) (s.inodes (s.files fp).fDataMap).iDataMap
    closeFat32 env fp
  Prog.modify (releaseFile fp)

def bytesLe (n value : ℕ) : List ℕ := (List.range n).map fun i => value / 2 ^ (8 * i) % 2 ^ 8

/-- The bytes of the new directory entry; the fields that are not set are those of the stack. -/
def newSfn (name : List ℕ) (isdir : Bool) (clu : ℕ) : List ℕ :=
  convertNormalTo8dot3 name ++ [if isdir then sfnAttrDir else sfnAttrWrite, 0x08] ++
    (List.range 7).map (fun i => env.stackByte (13 + i)) ++ bytesLe 2 (clu >>> 16) ++
      (List.range 4).map (fun i => env.stackByte (22 + i)) ++ bytesLe 2 clu ++ bytesLe 4 0

/-- The entry of a new file is appended to its directory; neither result is looked at. -/
def appendSfn (parent : ℕ) (sfn : List ℕ) : FsProg Unit := do
  let parentFile ← follow (dentryOpenFile env parent fModeAppend)
  let _ ← Prog.attempt (fsWrite env parentFile sfn)
  let _ ← Prog.attempt (fsClose env parentFile)

def createDentryFat32 (sb parent : ℕ) (name : List ℕ) (isdir : Bool) : FsProg ℕ := do
  let s ← Prog.get
  let b := s.sbs sb
  let freeCluIdx ← findFreeClu env b.infoFatSec b.infoNextClu
  writeFat env b.infoFatSec freeCluIdx fatItemEnd
  let node ← allocInodeFat32 env sb freeCluIdx 0 isdir
  let entryRet ← Prog.attempt (allocDentryFat32 env sb node (some parent) name)
  appendSfn env parent (newSfn env name isdir freeCluIdx)
  Prog.ofExcept entryRet

def pinned (entry : ℕ) (isdir : Bool) (s : FsSys) : FsSys :=
  let node := (s.dentries entry).dInode
  let s := s.setInode node fun n => { n with iPinned := true, iIsdir := n.iIsdir || isdir }
  dIncCount entry (s.setDentry entry fun d => { d with dPinned := true })

/-- One entry of `list_dir_fat32` that has its name and is neither "." nor "..". -/
def listSfn (entry page off : ℕ) : FsProg Unit := do
  let s ← Prog.get
  let data := (s.pages page).pData
  let curName := sfnName data off
  let curEntry ← match lookupDCache s entry curName with
    | some curEntry => pure curEntry
    | none => follow (readDentryFromSfn env data off entry curName)
  Prog.modify (pinned curEntry (sfnAttr data off == sfnAttrDir))

/-- `convert_8dot3_to_normal` does not look at what it gets for the name. -/
def allocName (data : ℕ → ℕ) (off : ℕ) : FsProg (List ℕ) := do
  match ← kmalloc env with
  | none => Prog.stuck
  | some _ => pure (sfnName data off)

/-- One entry of `list_dir_fat32` that is not skipped; "." and ".." get a name, too. -/
def listEntry (entry page off : ℕ) : FsProg Unit := do
  let s ← Prog.get
  let curName ← allocName env (s.pages page).pData off
  if compareFat32 curName dotName = 0 ∨ compareFat32 curName dotdotName = 0 then pure ()
  else listSfn env entry page off

def listPage (entry page : ℕ) : List ℕ → FsProg Unit
  | [] => pure ()
  | off :: offs => do
    let s ← Prog.get
    let data := (s.pages page).pData
    if data off = sfnMarkUnused then pure ()
    else if data off = sfnMarkDeleted then listPage entry page offs
    else if scanSkips (sfnAttr data off) then listPage entry page offs
    else do
      listEntry env entry page off
      listPage entry page offs

def listDirFat32 (fp : ℕ) : FsProg ℕ := do
  let s ← Prog.get
  let entry := (s.files fp).fDentry
  let blksize := (s.sbs (s.dentries entry).dSb).sBlocksize
  Prog.forEach (fun map => do
    let page ← getFspage env map blksize
    listPage env entry page (sfnOffsets blksize)) (dirMaps s entry)
  pure entry

def errorNotEmpty : ℕ := 11

/-- An error pointer for the parent is only handed on to `delete_fat32`. -/
def fsDelete (fp : ℕ) : FsProg Unit := do
  let s ← Prog.get
  let curfile := (s.files fp).fDentry
  let node := (s.dentries curfile).dInode
  let parent ← Prog.attempt (getDentryParent env curfile)
  if (s.inodes node).iIsdir then
    let entry ← listDirFat32 env fp
    let s ← Prog.get
    if (s.dentries entry).dSubdirs ≠ [] then Prog.throw errorNotEmpty
  let s ← Prog.get
  let parent ← follow (Prog.ofExcept parent)
  deleteFat32 env node parent (s.dentries curfile).dName
  Prog.modify (·.setFile fp fun f => { f with fDirt := false })

end Handles

end OurOS.Fs
