import OurOS.Fs.FatTable
import OurOS.Fs.Fscache

namespace OurOS.Fs

def newMap (b : SuperBlock) (clu : ℕ) : FsMap where
  mapAddr := cluToSec b.infoCluBase clu b.sBlockbits
  mapPage := none

def appendBlock (node map : ℕ) (b : SuperBlock) (clu : ℕ) (s : FsSys) : FsSys :=
  (s.setMap map fun _ => newMap b clu).setInode node fun n =>
    { n with iBlocks := (n.iBlocks + 1) % uintRange, iDataMap := n.iDataMap ++ [map] }

def newInode (sb : ℕ) (b : SuperBlock) (baseBlkAddr size : ℕ) (isdir : Bool) : Inode where
  iIno := cluToSec b.infoCluBase baseBlkAddr b.sBlockbits
  iCount := 0
  iSize := size
  iBlocks := 0
  iPinned := false
  iIsdir := isdir
  iDentry := []
  iDataMap := []
  iSb := sb

def newDentry (sb node ret : ℕ) (parent : Option ℕ) (name : List ℕ) : Dentry where
  dCount := 0
  dPinned := false
  dMounted := false
  dSubdirs := []
  dSb := sb
  dInode := node
  dParent := some (parent.getD ret)
  dName := name

section Alloc

variable (env : FsEnv)

/-- The chain is followed until it ends; the walk does not stop by itself on a cycle. -/
def buildDataMap (node : ℕ) (b : SuperBlock) : ℕ → ℕ → FsProg Unit
  | 0, _ => Prog.stuck
  | n + 1, cluNum =>
    if cluNum = fatItemEnd then pure ()
    else do
      match ← kmalloc env with
      | none => Prog.throw errorNoMemory
      | some map =>
        Prog.modify (appendBlock node map b cluNum)
        let cluNum ← readFat env b.infoFatSec cluNum
        if isErrValue cluNum then Prog.throw (uintRange - cluNum)
        else buildDataMap node b n cluNum

def allocInodeFat32 (sb baseBlkAddr size : ℕ) (isdir : Bool) : FsProg ℕ := do
  match ← kmalloc env with
  | none => Prog.throw errorNoMemory
  | some node =>
    let s ← Prog.get
    Prog.modify (·.setInode node fun _ => newInode sb (s.sbs sb) baseBlkAddr size isdir)
    buildDataMap env node (s.sbs sb) uintRange baseBlkAddr
    if ← addToICache node then pure node else Prog.throw errorCacheFull

def linkDentry (node entry : ℕ) (parent : Option ℕ) (s : FsSys) : FsSys :=
  let s := (iIncCount node s).setInode node fun n => { n with iDentry := entry :: n.iDentry }
  match parent with
  | some p => s.setDentry p fun d => { d with dSubdirs := entry :: d.dSubdirs }
  | none => s

def allocDentryFat32 (sb node : ℕ) (parent : Option ℕ) (name : List ℕ) : FsProg ℕ := do
  match ← kmalloc env with
  | none => Prog.throw errorNoMemory
  | some ret =>
    Prog.modify (·.setDentry ret fun _ => newDentry sb node ret parent name)
    Prog.modify (linkDentry node ret parent)
    if ← addToDCache ret then pure ret else Prog.throw errorCacheFull

def expandLoop (node : ℕ) (b : SuperBlock) : ℕ → ℕ → ℕ → FsProg (ℕ × ℕ)
  | 0, freeCluIdx, lastCluIdx => pure (freeCluIdx, lastCluIdx)
  | n + 1, freeCluIdx, lastCluIdx => do
    let freeCluIdx ← findFreeClu env b.infoFatSec freeCluIdx
    writeFat env b.infoFatSec lastCluIdx freeCluIdx
    match ← kmalloc env with
    | none => Prog.throw errorNoMemory
    | some map =>
      Prog.modify (appendBlock node map b freeCluIdx)
      expandLoop node b n ((freeCluIdx + 1) % uintRange) freeCluIdx

def expandBlocks (node num : ℕ) : FsProg Unit := do
  let s ← Prog.get
  let sb := (s.inodes node).iSb
  let b := s.sbs sb
  let r ← expandLoop env node b num b.infoNextClu
    (secToClu b.infoCluBase (s.inodes node).iIno b.sBlockbits)
  writeFat env b.infoFatSec r.2 fatItemEnd
  let _ ← Prog.attempt (updateNextClu env sb r.1)

def expandFat32 (node num : ℕ) : FsProg Unit := do
  Prog.modify (iIncCount node)
  let r ← Prog.attempt (expandBlocks env node num)
  Prog.modify (iDecCount node)
  Prog.ofExcept r

end Alloc

end OurOS.Fs
