import OurOS.Lib.Run
import OurOS.Mm.Page

namespace OurOS

def maxMminfoNum : ℕ := 16

def pageFree : ℕ := 0x00

def pageUsed : ℕ := 0xFF

def mminfoTypeKernel : ℕ := 0

def kernelMmsize : ℕ := 16 * 1024 * 1024

def kernelPageNum : ℕ := kernelMmsize >>> pageShift

/-- The whole of `bootmm_sys`; the buddy system reads only the part it extends. -/
structure Bootmm extends BootmmSys where
  phymmSize : ℕ
  pageMap : ℕ → ℕ
  lastAllocEnd : ℕ
  infoCnt : ℕ

def BootmmInfo.stop (r : BootmmInfo) : ℕ := (r.startAddr + r.length) % uintRange

def blankInfo : BootmmInfo := ⟨0, 0, 0⟩

/-- `kernel_memset` on the bytes of the page map from `first` on. -/
def setPageMap (mm : Bootmm) (first value len : ℕ) : Bootmm :=
  { mm with pageMap := fun p => if first ≤ p ∧ p < first + len then value else mm.pageMap p }

def setBootmmInfo (mm : Bootmm) (index startAddr length type : ℕ) : Bootmm :=
  { mm with info := Function.update mm.info index ⟨startAddr, length, type⟩ }

def deleteBootmmInfo (mm : Bootmm) (index : ℕ) : Bootmm × ℕ :=
  if mm.infoCnt ≤ index then (mm, 0)
  else
    let info := (List.range' index (mm.infoCnt - index)).foldl
      (fun info i => Function.update info i (info (i + 1))) mm.info
    ({ mm with info := info, infoCnt := mm.infoCnt - 1 }, 1)

def splitBootmmInfo (mm : Bootmm) (index splitAddrStart : ℕ) : Bootmm × ℕ :=
  if mm.infoCnt ≤ index then (mm, 0)
  else if mm.infoCnt = maxMminfoNum then (mm, 0)
  else
    let mminfo := mm.info index
    if mminfo.startAddr < splitAddrStart ∧ splitAddrStart < mminfo.stop then
      let length := splitAddrStart - mminfo.startAddr
      let mm := setBootmmInfo mm index mminfo.startAddr length mminfo.type
      let mm := setBootmmInfo mm mm.infoCnt splitAddrStart (mminfo.length - length) mminfo.type
      ({ mm with infoCnt := mm.infoCnt + 1 }, 1)
    else (mm, 0)

/-- What the loop of `insert_bootmm_info` does at a record that one of its comparisons matches. -/
def mergeBootmmInfo (mm : Bootmm) (startAddr length type i : ℕ) : Bootmm × ℕ :=
  let thisInfo := mm.info i
  if thisInfo.stop = startAddr then
    let nextInfo := mm.info (i + 1)
    if nextInfo.type = type ∧ (startAddr + length) % uintRange = nextInfo.startAddr then
      let mm := setBootmmInfo mm i thisInfo.startAddr
        ((thisInfo.length + (length + nextInfo.length)) % uintRange) thisInfo.type
      ((deleteBootmmInfo mm (i + 1)).1, 1)
    else
      (setBootmmInfo mm i thisInfo.startAddr ((thisInfo.length + length) % uintRange)
        thisInfo.type, 2)
  else
    (setBootmmInfo mm i startAddr ((thisInfo.length + length) % uintRange) thisInfo.type, 3)

/-- The comparisons of `insert_bootmm_info`; the second one is with the length of the record. -/
def matchesInfo (thisInfo : BootmmInfo) (startAddr length type : ℕ) : Bool :=
  thisInfo.type == type &&
    (thisInfo.stop == startAddr || (startAddr + length) % uintRange == thisInfo.length)

def insertLoop (mm : Bootmm) (startAddr length type : ℕ) : List ℕ → Bootmm × ℕ
  | [] => (mm, 0)
  | i :: is =>
    if matchesInfo (mm.info i) startAddr length type then mergeBootmmInfo mm startAddr length type i
    else insertLoop mm startAddr length type is

def insertBootmmInfo (mm : Bootmm) (startAddr length type : ℕ) : Bootmm × ℕ :=
  let (mm, ret) := insertLoop mm startAddr length type (List.range mm.infoCnt)
  if ret = 0 then
    if mm.infoCnt = maxMminfoNum then (mm, 0)
    else
      let mm := setBootmmInfo mm mm.infoCnt startAddr length type
      ({ mm with infoCnt := mm.infoCnt + 1 }, 4)
  else (mm, ret)

def initBootmm : Bootmm :=
  let mm : Bootmm :=
    { pageNum := machineMmsize >>> pageShift
      info := fun _ => blankInfo
      phymmSize := machineMmsize
      pageMap := fun _ => pageFree
      lastAllocEnd := 0
      infoCnt := 0 }
  let mm := (insertBootmmInfo mm 0 kernelMmsize mminfoTypeKernel).1
  setPageMap mm 0 pageUsed (kernelMmsize >>> pageShift)

/-- The inner loop of `find_pages`: `none` where it returns, else what is left to count and the
next page. -/
def countPages (pageMap : ℕ → ℕ) (pfnEnd : ℕ) : ℕ → ℕ → Option (ℕ × ℕ)
  | 0, j => some (0, j)
  | cnt + 1, j =>
    if pfnEnd < j then none
    else if pageMap j = pageUsed then some (cnt + 1, j + 1)
    else countPages pageMap pfnEnd cnt (j + 1)

/-- `cnt` is the number of pages that the inner loop has to count from the next one on. -/
def findLoop (mm : Bootmm) (cnt pfnEnd pfnAlign : ℕ) : ℕ → ℕ → Option ℕ
  | 0, _ => none
  | fuel + 1, i =>
    if pfnEnd < i then some 0
    else if mm.pageMap i ≠ pageUsed then
      match countPages mm.pageMap pfnEnd cnt (i + 1) with
      | none => some 0
      | some (0, _) => some i
      | some (_ + 1, j) => findLoop mm cnt pfnEnd pfnAlign fuel (upperAlign j pfnAlign)
    else findLoop mm cnt pfnEnd pfnAlign fuel (upperAlign (i + 1) pfnAlign)

def findPages (mm : Bootmm) (pageCnt pfnStart pfnEnd pfnAlign : ℕ) : Option ℕ :=
  let pfnAlign := if pfnAlign = 0 then 1 else pfnAlign
  findLoop mm ((pageCnt + uintRange - 1) % uintRange) (min (mm.pageNum - 1) pfnEnd) pfnAlign
    (mm.pageNum + 1) (upperAlign pfnStart pfnAlign)

def pageCount (size : ℕ) : ℕ := upperAlign size (1 <<< pageShift) >>> pageShift

/-- The first page of the block that `bootmm_alloc_page` takes, or 0. -/
def searchPages (mm : Bootmm) (size addrAlign : ℕ) : Option ℕ := do
  let pfnAlign := addrAlign >>> pageShift
  let res ← findPages mm (pageCount size) ((mm.lastAllocEnd + 1) % uintRange) (mm.pageNum - 1)
    pfnAlign
  if res = 0 then findPages mm (pageCount size) 0 mm.lastAllocEnd pfnAlign else pure res

def bootmmAllocPage (mm : Bootmm) (size type addrAlign : ℕ) : Option (ℕ × Bootmm) := do
  let res ← searchPages mm size addrAlign
  if res = 0 then pure (0, mm)
  else
    let (mm, insertInfo) := insertBootmmInfo mm (res <<< pageShift) size type
    if 0 < insertInfo then
      let mm := { mm with lastAllocEnd := res + pageCount size - 1 }
      pure (res <<< pageShift, setPageMap mm res pageUsed (pageCount size))
    else pure (0, mm)

/-- What `bootmm_free_page` does with the records when the `i`-th one holds the range. -/
def cutBootmmInfo (mm : Bootmm) (i addr size : ℕ) : Bootmm :=
  let (mm, splitInfo1) := splitBootmmInfo mm i addr
  if 0 < splitInfo1 then
    let (mm, splitInfo2) := splitBootmmInfo mm (mm.infoCnt - 1) ((addr + size) % uintRange)
    if 0 < splitInfo2 then (deleteBootmmInfo mm (mm.infoCnt - 2)).1
    else (deleteBootmmInfo mm (mm.infoCnt - 1)).1
  else
    let mm := (splitBootmmInfo mm i ((addr + size) % uintRange)).1
    (deleteBootmmInfo mm i).1

def freeLoop (addr size pfnStart pfnCnt : ℕ) : ℕ → ℕ → Bootmm → Option Bootmm
  | 0, _, _ => none
  | fuel + 1, i, mm =>
    if mm.infoCnt ≤ i then some mm
    else
      let info := mm.info i
      if addr < info.startAddr ∨ info.stop ≤ addr then
        freeLoop addr size pfnStart pfnCnt fuel (i + 1) mm
      else
        let restSize := info.length - (addr - info.startAddr)
        if restSize < size then some mm
        else
          let mm := setPageMap (cutBootmmInfo mm i addr size) pfnStart pageFree pfnCnt
          freeLoop addr size pfnStart pfnCnt fuel (i + 1) mm

def bootmmFreePage (mm : Bootmm) (addr size : ℕ) : Option Bootmm :=
  if getLowBits addr pageShift ≠ 0 then some mm
  else
    let pfnStart := addr >>> pageShift
    if pfnStart < kernelPageNum then some mm
    else
      let pfnCnt := size >>> pageShift
      if pfnCnt = 0 then some mm
      else freeLoop addr size pfnStart pfnCnt (maxMminfoNum + 1) 0 mm

/-- An allocation that has not been freed, with the alignment it asked for. -/
structure Allocation where
  addr : ℕ
  size : ℕ
  align : ℕ
deriving DecidableEq, Repr

structure BootmmTrace where
  mm : Bootmm
  live : List Allocation

inductive BootmmOp where
  | alloc (size type align : ℕ)
  | free (a : Allocation)
deriving DecidableEq, Repr

def bootmmStep (t : BootmmTrace) : BootmmOp → Option BootmmTrace
  | .alloc size type align => do
    let (addr, mm) ← bootmmAllocPage t.mm size type align
    pure ⟨mm, if addr = 0 then t.live else ⟨addr, size, align⟩ :: t.live⟩
  | .free a => do
    let mm ← bootmmFreePage t.mm a.addr a.size
    pure ⟨mm, t.live.erase a⟩

def bootmmStart : BootmmTrace := ⟨initBootmm, []⟩

end OurOS
