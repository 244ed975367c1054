import OurOS.Fs.State

namespace OurOS.Fs

def fatItemFree : ℕ := 0x00000000

def fatItemEnd : ℕ := 0x0FFFFFFF

/-- `max(0, (blk_num) - 2)` compares unsigned words, so it is `blk_num - 2`. -/
def cluToSec (baseSec blkNum blkBits : ℕ) : ℕ :=
  (baseSec + ((((blkNum + (uintRange - 2)) % uintRange) <<< blkBits) % uintRange) >>> sectorShift) %
    uintRange

def secToClu (baseSec secNum blkBits : ℕ) : ℕ :=
  (((((secNum + (uintRange - baseSec)) % uintRange) <<< sectorShift) % uintRange) >>> blkBits + 2) %
    uintRange

def offBytes (cluNum : ℕ) : ℕ := (cluNum <<< 2) % uintRange

def fatSector (fatBaseSec cluNum : ℕ) : ℕ := fatBaseSec + offBytes cluNum >>> sectorShift

section Table

variable (env : FsEnv)

def readFat (fatBaseSec cluNum : ℕ) : FsProg ℕ := do
  match ← kmalloc env with
  | none => pure (errValue errorNoMemory)
  | some _ =>
    match ← sdReadBlock env (fatSector fatBaseSec cluNum) 1 with
    | none => pure (errValue errorReadSdcard)
    | some buf => pure (dword buf (offBytes cluNum % sectorSize))

def writeFat (fatBaseSec cluNum value : ℕ) : FsProg Unit := do
  match ← kmalloc env with
  | none => Prog.throw errorNoMemory
  | some _ =>
    match ← sdReadBlock env (fatSector fatBaseSec cluNum) 1 with
    | none => Prog.throw errorReadSdcard
    | some buf =>
      let buf := putDword buf (offBytes cluNum % sectorSize) value
      if ← sdWriteBlock env buf (fatSector fatBaseSec cluNum) 1 then pure ()
      else Prog.throw errorReadSdcard

/-- The search does not stop by itself once it has read every index. -/
def findFreeCluFrom (fatBaseSec : ℕ) : ℕ → ℕ → FsProg ℕ
  | 0, _ => Prog.stuck
  | n + 1, freeIdx => do
    let fatValue ← readFat env fatBaseSec freeIdx
    if isErrValue fatValue then pure fatValue
    else if fatValue = fatItemFree then pure freeIdx
    else findFreeCluFrom fatBaseSec n ((freeIdx + 1) % uintRange)

def findFreeClu (fatBaseSec startIdx : ℕ) : FsProg ℕ :=
  findFreeCluFrom env fatBaseSec uintRange startIdx

def fsinfoNextClu : ℕ := 492

def updateNextClu (sb value : ℕ) : FsProg Unit := do
  let s ← Prog.get
  match ← kmalloc env with
  | none => Prog.throw errorNoMemory
  | some _ =>
    match ← sdReadBlock env (s.sbs sb).infoFsinfoSec 1 with
    | none => Prog.throw errorReadSdcard
    | some buf =>
      Prog.modify (·.setSb sb fun b => { b with infoNextClu := value })
      let buf := putDword buf fsinfoNextClu value
      if ← sdWriteBlock env buf (s.sbs sb).infoFsinfoSec 1 then pure ()
      else Prog.throw errorReadSdcard

end Table

end OurOS.Fs
