import OurOS.Vm.PageTable

set_option linter.style.nameCheck false

namespace OurOS

def tlbNum : ℕ := 32

structure TlbEntry where
  vpn2 : ℕ
  asid : ℕ
  lo0 : EntryLo
  lo1 : EntryLo
deriving DecidableEq, Repr

namespace TlbEntry

def isGlobal (e : TlbEntry) : Bool := e.lo0.g && e.lo1.g

def hits (e : TlbEntry) (vpn2 asid : ℕ) : Bool := e.vpn2 == vpn2 && (e.asid == asid || e.isGlobal)

end TlbEntry

def addrBindToLo1 (addr : ℕ) : Bool := (((addr <<< 19) % uintRange) >>> 31) != 0

def TlbEntry.half (e : TlbEntry) (vaddr : ℕ) : EntryLo :=
  if addrBindToLo1 vaddr then e.lo1 else e.lo0

def TlbEntry.setHalf (e : TlbEntry) (vaddr : ℕ) (lo : EntryLo) : TlbEntry :=
  if addrBindToLo1 vaddr then { e with lo1 := lo } else { e with lo0 := lo }

def vpn2 (vaddr : ℕ) : ℕ := vaddr >>> 13

structure MmStruct where
  pgd : Pgd
  asid : ℕ
  pfNum : ℕ
  fifo : List ℕ

structure PagePool where
  pageNum : ℕ
  nextFree : ℕ
  entry : ℕ → ℕ

/-- `virt` is the `virtual` field of the page structures, `mem` the contents of the page frames and
`swapFile` the contents of the file `/pages`, both by page and offset; `hiAsid` is the ASID in the
EntryHi register. -/
structure VmSys where
  mms : ℕ → MmStruct
  mmCurrent : ℕ
  hiAsid : ℕ
  tlb : ℕ → TlbEntry
  virt : ℕ → ℕ
  mem : ℕ → ℕ → ℕ
  pool : PagePool
  swapFile : ℕ → ℕ → ℕ
  clock : ℕ

def VmSys.cur (s : VmSys) : MmStruct := s.mms s.mmCurrent

def VmSys.setCur (s : VmSys) (mm : MmStruct) : VmSys :=
  { s with mms := Function.update s.mms s.mmCurrent mm }

/-- What the handlers take from outside: the index that `tlbwr` picks, the page that
`alloc_one_page` hands out, which is on no FIFO of the running processes, and the words that lie
behind `page_pool.entry`. -/
structure VmEnv where
  procs : List ℕ
  limit : ℕ
  random : VmSys → ℕ
  allocOnePage : VmSys → Option ℕ
  behindEntry : ℕ → ℕ
  alloc_small : ∀ s pfn, allocOnePage s = some pfn → pfn < machinePageNum
  alloc_fresh : ∀ s pfn, allocOnePage s = some pfn → ∀ p ∈ procs, pfn ∉ (s.mms p).fifo

/-- `get_pte` on the address space `mm`, for its effect on the page directory. -/
def touchPte (s : VmSys) (mm vaddr : ℕ) : VmSys :=
  let touched := { s.mms mm with pgd := (getPte (s.mms mm).pgd vaddr).1 }
  { s with mms := Function.update s.mms mm touched }

def VmSys.entry (s : VmSys) (mm : ℕ) (pte : ℕ × ℕ) : Pte := readPte (s.mms mm).pgd pte

def ptePtr (s : VmSys) (mm vaddr : ℕ) : ℕ × ℕ := (getPte (s.mms mm).pgd vaddr).2

def createMmStruct (asid : ℕ) : MmStruct := ⟨createPt, asid, 0, []⟩

def initPagePool : PagePool := ⟨0, 1, fun _ => 0⟩

def initTlbEntry (i : ℕ) : TlbEntry :=
  ⟨vpn2 (0x80000000 + 0x2000 * i), 0, EntryLo.ofValue 0, EntryLo.ofValue 0⟩

def activateMemory (s : VmSys) (mm : ℕ) : VmSys :=
  { s with mmCurrent := mm, hiAsid := (s.mms mm).asid % 256 }

def tlbp (s : VmSys) (vpn2 asid : ℕ) : Option ℕ :=
  (List.range tlbNum).find? fun i => (s.tlb i).hits vpn2 asid

def tlbw (s : VmSys) (i : ℕ) (e : TlbEntry) : VmSys := { s with tlb := Function.update s.tlb i e }

def tlbReset (s : VmSys) (mm : ℕ) (vaddr : ℕ) : VmSys :=
  let asid := (s.mms mm).asid % 256
  let s := { s with hiAsid := asid }
  match tlbp s (vpn2 vaddr) asid with
  | none => s
  | some i =>
    -- `tlbr` loads EntryHi from the entry it reads
    let e := s.tlb i
    let s := touchPte { s with hiAsid := e.asid } mm vaddr
    let entrylo := (s.entry mm (ptePtr s mm vaddr)).tlbEntry
    tlbw s i (e.setHalf vaddr entrylo)

def writeFrame (s : VmSys) (pfn offset byte : ℕ) : VmSys :=
  { s with mem := Function.update s.mem pfn (Function.update (s.mem pfn) offset byte) }

def writeSwapByte (s : VmSys) (blockNum i byte : ℕ) : VmSys :=
  let block := Function.update (s.swapFile blockNum) i byte
  { s with swapFile := Function.update s.swapFile blockNum block }

section Handlers

variable (env : VmEnv) (access : VmSys → ℕ → Option (VmSys × ℕ))

def userLoad (s : VmSys) (vaddr : ℕ) : Option (VmSys × ℕ) := do
  let (s, pfn) ← access s vaddr
  return (s, s.mem pfn (vaddr % pageSize))

def userStore (s : VmSys) (vaddr byte : ℕ) : Option VmSys := do
  let (s, pfn) ← access s vaddr
  return writeFrame s pfn (vaddr % pageSize) byte

def poolEntry (pool : PagePool) (i : ℕ) : ℕ :=
  if i < machinePageNum then pool.entry i else env.behindEntry i

def allocSwapBlock (pool : PagePool) : PagePool × ℕ :=
  let blockNum := pool.nextFree
  let nextNextFree := poolEntry env pool (pool.nextFree - 1)
  if nextNextFree ≠ 0 then ({ pool with nextFree := nextNextFree }, blockNum)
  else ({ pool with nextFree := pool.nextFree + 1, pageNum := pool.pageNum + 1 }, blockNum)

def writePageToDisk (s : VmSys) (vaddr blockNum : ℕ) : Option (VmSys × ℕ) := do
  let (s, blockNum) :=
    if blockNum = 0 then
      let r := allocSwapBlock env s.pool
      ({ s with pool := r.1 }, r.2)
    else (s, blockNum)
  let s ← (List.range pageSize).foldlM (fun s i => do
    let (s, byte) ← userLoad access s (vaddr + i)
    return writeSwapByte s blockNum i byte) s
  return (s, blockNum)

def loadPageFromDisk (s : VmSys) (vaddr blockNum : ℕ) : Option VmSys :=
  if blockNum = 0 then some s
  else (List.range pageSize).foldlM
    (fun s i => userStore access s (vaddr + i) (s.swapFile blockNum i)) s

def setCurPte (s : VmSys) (vaddr : ℕ) (f : Pte → Pte) : VmSys :=
  s.setCur { s.cur with pgd := setPte s.cur.pgd vaddr f }

def queuePage (s : VmSys) (page vaddr : ℕ) (fifo : List ℕ) (pfNum : ℕ) : VmSys :=
  let s := { s with virt := Function.update s.virt page vaddr }
  s.setCur { s.cur with fifo := fifo, pfNum := pfNum }

def releasePage (s : VmSys) (page vaddrOut vaddr : ℕ) : VmSys :=
  let s := setCurPte s vaddrOut fun pte => { pte with tlbEntry := { pte.tlbEntry with v := false } }
  let s := tlbReset s s.mmCurrent vaddrOut
  queuePage s page vaddr (s.cur.fifo.erase page ++ [page]) s.cur.pfNum

def swapOnePage (s : VmSys) (vaddr : ℕ) : Option (VmSys × ℕ) := do
  let page ← s.cur.fifo.head?
  let vaddrOut := s.virt page
  let s := touchPte s s.mmCurrent vaddrOut
  let pte := s.entry s.mmCurrent (ptePtr s s.mmCurrent vaddrOut)
  let (s, blockNum) ← writePageToDisk env access s vaddrOut pte.info
  let s := setCurPte s vaddrOut fun pte => { pte with info := blockNum }
  let s := touchPte s s.mmCurrent vaddr
  let info := (s.entry s.mmCurrent (ptePtr s s.mmCurrent vaddr)).info
  let s ← loadPageFromDisk access s vaddrOut info
  return (releasePage s page vaddrOut vaddr, pte.tlbEntry.pfn <<< pageShift)

def faultFrame (s : VmSys) : Option ℕ :=
  if s.cur.pfNum < env.limit then env.allocOnePage s else none

def doPagefault (s : VmSys) (vaddr : ℕ) : Option VmSys := do
  let s := touchPte s s.mmCurrent vaddr
  let frame := faultFrame env s
  let s := { s with clock := s.clock + 1 }
  let (s, paddr) ← match frame with
    | some pfn =>
      some (queuePage s pfn vaddr (s.cur.fifo ++ [pfn]) (s.cur.pfNum + 1), getPagePaddr pfn)
    | none => swapOnePage env access s vaddr
  return setCurPte s vaddr fun pte =>
    { pte with tlbEntry := EntryLo.ofValue (((paddr >>> pageShift) <<< 6) ||| 0x1f) }

def loPair (pte : ℕ × ℕ) (lo1 : Bool) : (ℕ × ℕ) × (ℕ × ℕ) :=
  if lo1 then ((pte.1, pte.2 - 1), pte) else (pte, (pte.1, pte.2 + 1))

def __tlbRefill (s : VmSys) (badVaddr : ℕ) (index : Option ℕ) : Option VmSys :=
  let s := touchPte s s.mmCurrent badVaddr
  let pte := ptePtr s s.mmCurrent badVaddr
  let entrylo := fun pte => (s.entry s.mmCurrent pte).tlbEntry
  let pair := loPair pte (addrBindToLo1 badVaddr)
  if (entrylo pte).v then
    let e : TlbEntry := ⟨vpn2 badVaddr, s.hiAsid, entrylo pair.1, entrylo pair.2⟩
    match index with
    | some i => some (tlbw s i e)
    | none => some (tlbw { s with clock := s.clock + 1 } (env.random s % tlbNum) e)
  else doPagefault env access s badVaddr

end Handlers

/-- One access of the processor to a virtual address, with the exception handlers run until the
translation succeeds; the result is the page frame. -/
def vmAccess (env : VmEnv) : ℕ → VmSys → ℕ → Option (VmSys × ℕ)
  | 0, _, _ => none
  | fuel + 1, s, vaddr =>
    if userTop ≤ vaddr then some (s, (vaddr % 2 ^ 29) >>> pageShift)
    else
      match tlbp s (vpn2 vaddr) s.hiAsid with
      | some i =>
        let lo := (s.tlb i).half vaddr
        if lo.v then some (s, lo.pfn)
        else
          (__tlbRefill env (vmAccess env fuel) s vaddr (some i)).bind (vmAccess env fuel · vaddr)
      | none =>
        (__tlbRefill env (vmAccess env fuel) s vaddr none).bind (vmAccess env fuel · vaddr)

end OurOS
