import OurOS.Mm.Buddy

namespace OurOS

def slabAlign : ℕ := 4

def kmemCacheNum : ℕ := 12

def listHeadBytes : ℕ := 8

def slabHeadBytes : ℕ := 24

def kmemCacheSizes : List ℕ := [8, 16, 32, 64, 96, 128, 192, 256, 512, 1024, 1536, 2048]

def kmemCacheSize (i : ℕ) : ℕ := kmemCacheSizes.getD i 0

/-- The two list heads that a `slab_head` starts with; a list is named by the address of its
`slab_head`. -/
inductive SlabList where
  | allocList (slabp : ℕ)
  | freeList (slabp : ℕ)
deriving DecidableEq, Repr

abbrev ObjectLinks := Links (SlabList ⊕ ℕ)

def nodeAddr : SlabList ⊕ ℕ → ℕ
  | .inl (.allocList slabp) => slabp
  | .inl (.freeList slabp) => slabp + listHeadBytes
  | .inr node => node

structure SlabHead where
  allocNum : ℕ
  freeNum : ℕ
deriving DecidableEq, Repr

structure KmemCache where
  size : ℕ
  objectSize : ℕ
  capacity : ℕ
  cpuPage : Option ℕ
deriving DecidableEq, Repr

structure SlabSys where
  buddy : BuddySys
  caches : ℕ → KmemCache
  slabs : ℕ → SlabHead
  objects : ObjectLinks

def slabIsFull (cachep : KmemCache) (slab : SlabHead) : Bool := slab.allocNum == cachep.capacity

def slabIsEmpty (slab : SlabHead) : Bool := slab.allocNum == 0

def getPageBySlab (slabp : ℕ) : ℕ := getPgnByPaddr (getKernelPaddr slabp)

def initKmemCacheNode (links : PageLinks) (i : ℕ) : PageLinks :=
  let links := initListHead links (.inl (.slabFree i))
  let links := initListHead links (.inl (.slabFull i))
  initListHead links (.inl (.slabPartial i))

def initKmemCache (s : SlabSys) (i size : ℕ) : SlabSys :=
  let objectSize := upperAlign size slabAlign
  let slotSize := upperAlign (objectSize + listHeadBytes) slabAlign
  let cachep := ⟨slotSize, objectSize, (pageSize - slabHeadBytes) / slotSize, none⟩
  { s with
    caches := Function.update s.caches i cachep
    buddy := { s.buddy with links := initKmemCacheNode s.buddy.links i } }

def initSlab (s : SlabSys) : SlabSys :=
  (List.range kmemCacheNum).foldl (fun s i => initKmemCache s i (kmemCacheSize i)) s

def initObjectInPage (s : SlabSys) (i pgn : ℕ) : SlabSys :=
  let slabp := (s.buddy.pages pgn).virtual
  let objects := initListHead s.objects (.inl (.allocList slabp))
  let objects := initListHead objects (.inl (.freeList slabp))
  let firstFree := slabp + slabHeadBytes + (s.caches i).size
  { s with
    objects := listAddTail objects (.inr firstFree) (.inl (.freeList slabp))
    slabs := Function.update s.slabs slabp ⟨0, 1⟩ }

def allocNewObjectInPage (s : SlabSys) (i slabp : ℕ) : SlabSys :=
  let slab := s.slabs slabp
  if slab.allocNum + slab.freeNum < (s.caches i).capacity then
    let nextFree := nodeAddr (s.objects.prev (.inl (.freeList slabp))) + (s.caches i).size
    { s with
      objects := listAddTail s.objects (.inr nextFree) (.inl (.freeList slabp))
      slabs := Function.update s.slabs slabp ⟨slab.allocNum, slab.freeNum + 1⟩ }
  else s

def allocObject (s : SlabSys) (i slabp : ℕ) : SlabSys × Option ℕ :=
  let s := if (s.slabs slabp).freeNum = 1 then allocNewObjectInPage s i slabp else s
  let slab := s.slabs slabp
  if slab.freeNum = 0 then (s, none)
  else
    let allocNode := s.objects.next (.inl (.freeList slabp))
    let objects := listDel s.objects allocNode
    ({ s with
      objects := listAdd objects allocNode (.inl (.allocList slabp))
      slabs := Function.update s.slabs slabp ⟨slab.allocNum + 1, slab.freeNum - 1⟩ },
      some (nodeAddr allocNode - (s.caches i).objectSize))

def moveSlab (s : SlabSys) (pgn : ℕ) (list : PageList) : SlabSys :=
  { s with buddy := { s.buddy with
      links := listAdd (listDel s.buddy.links (.inr pgn)) (.inr pgn) (.inl list) } }

def newSlabPage (s : SlabSys) (i : ℕ) : SlabSys × Option ℕ :=
  match __allocPages s.buddy 0 buddySlab with
  | (buddy, none) => ({ s with buddy := buddy }, none)
  | (buddy, some pgn) =>
    let page := { buddy.pages pgn with
      virtual := getKernelVaddr (getPagePaddr pgn), usedInfo := buddySlab, cachep := some i }
    let buddy := { buddy with
      pages := Function.update buddy.pages pgn page
      links := listAdd buddy.links (.inr pgn) (.inl (.slabFree i)) }
    (initObjectInPage { s with buddy := buddy } i pgn, some pgn)

def nonFullPage (s : SlabSys) (i : ℕ) : SlabSys × Option ℕ :=
  if !listEmpty s.buddy.links (.inl (.slabPartial i)) then
    (s, listFirstEntry s.buddy.links (.inl (.slabPartial i)))
  else if !listEmpty s.buddy.links (.inl (.slabFree i)) then
    (s, listFirstEntry s.buddy.links (.inl (.slabFree i)))
  else newSlabPage s i

def resetCpuPage (s : SlabSys) (i pgn : ℕ) : SlabSys :=
  { s with caches := Function.update s.caches i { s.caches i with cpuPage := some pgn } }

def kmemCachePage (s : SlabSys) (i : ℕ) : SlabSys × Option ℕ :=
  let current := (s.caches i).cpuPage.filter fun pgn =>
    !slabIsFull (s.caches i) (s.slabs (s.buddy.pages pgn).virtual)
  match current with
  | some pgn => (s, some pgn)
  | none =>
    match nonFullPage s i with
    | (s, none) => (s, none)
    | (s, some pgn) => (resetCpuPage s i pgn, some pgn)

def kmemCacheAlloc (s : SlabSys) (i : ℕ) : SlabSys × Option ℕ :=
  match kmemCachePage s i with
  | (s, none) => (s, none)
  | (s, some pgn) =>
    let slabp := (s.buddy.pages pgn).virtual
    let wasFree := slabIsEmpty (s.slabs slabp)
    let r := allocObject s i slabp
    if slabIsFull (r.1.caches i) (r.1.slabs slabp) then (moveSlab r.1 pgn (.slabFull i), r.2)
    else if wasFree then (moveSlab r.1 pgn (.slabPartial i), r.2)
    else r

def kmemCacheFree (s : SlabSys) (i objp : ℕ) : SlabSys :=
  let slabp := lowerAlign objp pageSize
  let pgn := getPageBySlab slabp
  let objNode : SlabList ⊕ ℕ := .inr (objp + (s.caches i).objectSize)
  let slab := s.slabs slabp
  let wasFull := slabIsFull (s.caches i) slab
  let objects := listDel s.objects objNode
  let s := { s with
    objects := listAdd objects objNode (.inl (.freeList slabp))
    slabs := Function.update s.slabs slabp ⟨slab.allocNum - 1, slab.freeNum + 1⟩ }
  if slab.allocNum - 1 = 0 then moveSlab s pgn (.slabFree i)
  else if wasFull then moveSlab s pgn (.slabPartial i)
  else s

def kmemCacheFreePage (s : SlabSys) (pagevp : ℕ) : SlabSys :=
  let pgn := getPageBySlab pagevp
  if (s.slabs pagevp).allocNum ≠ 0 then s
  else { s with
    buddy := __freePages { s.buddy with links := listDel s.buddy.links (.inr pgn) } pgn }

def kmalloc (s : SlabSys) (size : ℕ) : SlabSys × Option ℕ :=
  if size ≤ kmemCacheSize (kmemCacheNum - 1) then
    match (List.range kmemCacheNum).find? fun i => size ≤ kmemCacheSize i with
    | some i => kmemCacheAlloc s i
    | none => (s, none)
  else
    let r := allocPages s.buddy size
    ({ s with buddy := r.1 }, (r.2.filter (· != 0)).map getKernelVaddr)

def kfree (s : SlabSys) (objp : ℕ) : SlabSys :=
  let page := s.buddy.pages (getPageBySlab (lowerAlign objp pageSize))
  if page.usedInfo = buddySlab then
    match page.cachep with
    | some i => kmemCacheFree s i objp
    | none => s
  else { s with buddy := freePages s.buddy (getKernelPaddr objp) }

end OurOS
