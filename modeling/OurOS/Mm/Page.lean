import OurOS.Utils
import OurOS.Linux.List

namespace OurOS

def pageShift : ℕ := 12

def pageSize : ℕ := 4096

def machineMmsize : ℕ := 512 * 1024 * 1024

def machinePageNum : ℕ := machineMmsize >>> pageShift

def kernelEntry : ℕ := 0x80000000

def getKernelVaddr (paddr : ℕ) : ℕ := paddr ||| kernelEntry

def getKernelPaddr (vaddr : ℕ) : ℕ := vaddr &&& (uintRange - 1 - kernelEntry)

structure BootmmInfo where
  startAddr : ℕ
  length : ℕ
  type : ℕ
deriving DecidableEq, Repr

structure BootmmSys where
  pageNum : ℕ
  info : ℕ → BootmmInfo

def buddyFree : ℕ := 0

def buddySlab : ℕ := 1

def buddyAlloced : ℕ := 2

def buddyReserved : ℕ := 3

structure Page where
  usedInfo : ℕ
  virtual : ℕ
  bplevel : ℕ
  cachep : Option ℕ
deriving DecidableEq, Repr

inductive PageList where
  | freelist (level : ℕ)
  | slabPartial (cache : ℕ)
  | slabFull (cache : ℕ)
  | slabFree (cache : ℕ)
  | fifo (mm : ℕ)
deriving DecidableEq, Repr

abbrev PageLinks := Links (PageList ⊕ ℕ)

def getPagePaddr (pgn : ℕ) : ℕ := pgn <<< pageShift

def getPgnByPaddr (paddr : ℕ) : ℕ := paddr >>> pageShift

end OurOS
