import OurOS.Fs.Names

namespace OurOS.Fs

def dcacheCapacity : ℕ := 64

def icacheCapacity : ℕ := 64

def pcacheCapacity : ℕ := 128

namespace Fscache

def add (c : Fscache) (bucket item : ℕ) : Fscache :=
  { size := c.size + 1
    lru := item :: c.lru
    hash := Function.update c.hash bucket (item :: c.hash bucket) }

def unlink (c : Fscache) (item : ℕ) : Fscache :=
  { c with lru := c.lru.erase item, hash := fun i => (c.hash i).erase item }

def touch (c : Fscache) (item : ℕ) : Fscache := { c with lru := item :: c.lru.erase item }

end Fscache

def dIncCount (entry : ℕ) (s : FsSys) : FsSys :=
  { s.setDentry entry fun d => { d with dCount := d.dCount + 1 } with
    dCache := s.dCache.touch entry }

def dDecCount (entry : ℕ) (s : FsSys) : FsSys :=
  { s.setDentry entry fun d => { d with dCount := d.dCount - 1 } with
    dCache := s.dCache.touch entry }

def iIncCount (node : ℕ) (s : FsSys) : FsSys :=
  { s.setInode node fun n => { n with iCount := n.iCount + 1 } with
    iCache := s.iCache.touch node }

def iDecCount (node : ℕ) (s : FsSys) : FsSys :=
  { s.setInode node fun n => { n with iCount := n.iCount - 1 } with
    iCache := s.iCache.touch node }

def freeDentry (entry : ℕ) (s : FsSys) : FsSys :=
  let d := s.dentries entry
  let s := { s with dCache := s.dCache.unlink entry }
  let s := s.setInode d.dInode fun n => { n with iDentry := n.iDentry.erase entry }
  let s := match d.dParent with
    | some p => s.setDentry p fun e => { e with dSubdirs := e.dSubdirs.erase entry }
    | none => s
  let dentries := fun c =>
    if c ∈ d.dSubdirs then { s.dentries c with dParent := none } else s.dentries c
  { s with dentries := dentries }.kfree entry

/-- `container_of(page, fs_map, map_page)->map_page = nullptr` clears the first word of the page
itself, where `p_dirt` is. -/
def freeFspage (page : ℕ) (s : FsSys) : FsSys :=
  let s := { s with pCache := { s.pCache with lru := s.pCache.lru.erase page } }
  let s := s.setPage page fun p => { p with pDirt := false }
  s.kfree page

def freeMap (map : ℕ) : FsProg Unit := do
  let s ← Prog.get
  match (s.maps map).mapPage with
  | none => pure ()
  | some (.ok page) => Prog.modify (freeFspage page)
  | some (.error _) => Prog.stuck
  Prog.modify (·.kfree map)

def freeInode (node : ℕ) : FsProg Unit := do
  let s ← Prog.get
  let n := s.inodes node
  Prog.modify fun s => { s with iCache := s.iCache.unlink node }
  Prog.modify fun s => n.iDentry.foldl (fun s entry => freeDentry entry s) s
  Prog.modify (·.setInode node fun n => { n with iDataMap := [] })
  Prog.forEach freeMap n.iDataMap
  Prog.modify (·.kfree node)

def shrinkD (s : FsSys) : FsSys := { s with dCache := { s.dCache with size := s.dCache.size - 1 } }

def shrinkI (s : FsSys) : FsSys := { s with iCache := { s.iCache with size := s.iCache.size - 1 } }

def shrinkP (s : FsSys) : FsSys := { s with pCache := { s.pCache with size := s.pCache.size - 1 } }

/-- The walk over the LRU list from its tail: what is pinned stays, what is not referenced goes, and
the first of the others is remembered. -/
def flushWalk (pinned unused : FsSys → ℕ → Bool) (free : ℕ → FsProg Unit) :
    List ℕ → Option ℕ → FsProg (Bool × Option ℕ)
  | [], target => pure (false, target)
  | item :: rest, target => do
    let s ← Prog.get
    if pinned s item then flushWalk pinned unused free rest target
    else if unused s item then
      free item
      let r ← flushWalk pinned unused free rest target
      pure (true, r.2)
    else flushWalk pinned unused free rest (target.or (some item))

def flushLru (pinned unused : FsSys → ℕ → Bool) (free : ℕ → FsProg Unit) (lru : List ℕ) :
    FsProg Bool := do
  match ← flushWalk pinned unused free lru.reverse none with
  | (true, _) => pure true
  | (false, none) => pure false
  | (false, some target) =>
    free target
    pure true

def flushDCache : FsProg Bool := do
  let s ← Prog.get
  flushLru (fun s d => (s.dentries d).dPinned) (fun s d => (s.dentries d).dCount == 0)
    (fun d => Prog.modify fun s => shrinkD (freeDentry d s)) s.dCache.lru

def flushICache : FsProg Bool := do
  let s ← Prog.get
  flushLru (fun s n => (s.inodes n).iPinned) (fun s n => (s.inodes n).iCount == 0)
    (fun n => do
      freeInode n
      Prog.modify shrinkI) s.iCache.lru

def addToDCache (entry : ℕ) : FsProg Bool := do
  let s ← Prog.get
  let room ← if s.dCache.size = dcacheCapacity then flushDCache else pure true
  if room then
    Prog.modify fun s =>
      { s with dCache := s.dCache.add (hashString (s.dentries entry).dName) entry }
  pure room

def addToICache (node : ℕ) : FsProg Bool := do
  let s ← Prog.get
  let room ← if s.iCache.size = icacheCapacity then flushICache else pure true
  if room then
    Prog.modify fun s => { s with iCache := s.iCache.add (hashInt (s.inodes node).iIno) node }
  pure room

section Pages

variable (env : FsEnv)

def flushFspage (page : Option (Except ℕ ℕ)) : FsProg Unit := do
  let s ← Prog.get
  match page with
  | none => pure ()
  | some (.error _) => Prog.stuck
  | some (.ok p) =>
    let page := s.pages p
    if page.pDirt then
      if ← sdWriteBlock env page.pData page.pSecAddr page.pSecCnt then
        Prog.modify (·.setPage p fun page => { page with pDirt := false })
      else Prog.throw errorReadSdcard
    else pure ()

/-- `pages` are the pages still ahead of the walk, which is stuck when it comes to the head of the
LRU list. -/
def flushPages : ℕ → List ℕ → FsProg Bool
  | 0, _ => pure true
  | _ + 1, [] => Prog.stuck
  | n + 1, page :: pages => do
    match ← Prog.attempt (flushFspage env (some (.ok page))) with
    | .error _ => pure false
    | .ok () =>
      Prog.modify fun s => shrinkP (freeFspage page s)
      flushPages n pages

def flushPCache : FsProg Bool := do
  let s ← Prog.get
  flushPages env (pcacheCapacity / 2) s.pCache.lru.reverse

def pCacheRoom : FsProg Bool := do
  let s ← Prog.get
  if s.pCache.size = pcacheCapacity then flushPCache env else pure true

def addToPCache (page : ℕ) (s : FsSys) : FsSys :=
  { s with pCache := { s.pCache with size := s.pCache.size + 1, lru := page :: s.pCache.lru } }

def newFspage (baseSec blkSize : ℕ) (data : ℕ → ℕ) : FsPage where
  pDirt := false
  pData := data
  pPagesize := blkSize
  pSecAddr := baseSec
  pSecCnt := blkSize >>> sectorShift

def allocFspage (baseSec blkSize : ℕ) : FsProg ℕ := do
  match ← kmalloc env with
  | none => Prog.throw errorNoMemory
  | some page =>
    match ← kmalloc env with
    | none =>
      Prog.modify (·.kfree page)
      Prog.throw errorNoMemory
    | some _ =>
      match ← sdReadBlock env baseSec (blkSize >>> sectorShift) with
      | some data =>
        Prog.modify (·.setPage page fun _ => newFspage baseSec blkSize data)
        if ← pCacheRoom env then
          Prog.modify (addToPCache page)
          pure page
        else Prog.throw errorCacheFull
      | none =>
        Prog.modify (·.kfree page)
        -- the error pointer is added to the cache as if it were the page
        if ← pCacheRoom env then Prog.stuck else Prog.throw errorCacheFull

def getFspage (map blksize : ℕ) : FsProg ℕ := do
  let s ← Prog.get
  match (s.maps map).mapPage with
  | some r => Prog.ofExcept r
  | none =>
    let r ← Prog.attempt (allocFspage env (s.maps map).mapAddr blksize)
    Prog.modify (·.setMap map fun m => { m with mapPage := some r })
    Prog.ofExcept r

end Pages

def lookupDCache (s : FsSys) (dir : ℕ) (name : List ℕ) : Option ℕ :=
  (s.dCache.hash (hashString name)).find? fun e =>
    (s.dentries e).dParent == some dir && compareFat32 (s.dentries e).dName name == 0

def lookupICache (s : FsSys) (baseSec : ℕ) : Option ℕ :=
  (s.iCache.hash (hashInt baseSec)).find? fun n => (s.inodes n).iIno == baseSec

end OurOS.Fs
