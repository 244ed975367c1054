import OurOS.Mm.Page

set_option linter.style.nameCheck false

namespace OurOS

def maxBuddyOrder : ℕ := 4

structure BuddySys where
  pages : ℕ → Page
  links : PageLinks
  startPfn : ℕ
  pageNum : ℕ

def pgnIsInZone (s : BuddySys) (pgn : ℕ) : Prop :=
  s.startPfn ≤ pgn ∧ pgn < s.startPfn + s.pageNum

instance (s : BuddySys) (pgn : ℕ) : Decidable (pgnIsInZone s pgn) :=
  inferInstanceAs (Decidable (_ ∧ _))

def getBuddyPgn (pgn bplevel : ℕ) : ℕ := pgn ^^^ (1 <<< bplevel)

def coalesce : ℕ → BuddySys → ℕ → ℕ → BuddySys × ℕ × ℕ
  | 0, s, thisPgn, bplevel => (s, thisPgn, bplevel)
  | n + 1, s, thisPgn, bplevel =>
    let buddyPgn := getBuddyPgn thisPgn bplevel
    if bplevel ≠ (s.pages buddyPgn).bplevel ∨ (s.pages buddyPgn).usedInfo ≠ buddyFree then
      (s, thisPgn, bplevel)
    else
      coalesce n { s with links := listDelInit s.links (.inr buddyPgn) }
        (thisPgn &&& buddyPgn) (bplevel + 1)

def putFree (s : BuddySys) (pgn bplevel : ℕ) : BuddySys :=
  { s with
    pages := Function.update s.pages pgn
      { s.pages pgn with bplevel := bplevel, usedInfo := buddyFree }
    links := listAddTail s.links (.inr pgn) (.inl (.freelist bplevel)) }

def __freePages (s : BuddySys) (page : ℕ) : BuddySys :=
  if ¬ pgnIsInZone s page then s
  else if (s.pages page).usedInfo = buddyFree then s
  else
    let bplevel := (s.pages page).bplevel
    let r := coalesce (maxBuddyOrder - bplevel) s page bplevel
    putFree r.1 r.2.1 r.2.2

def freePages (s : BuddySys) (addr : ℕ) : BuddySys :=
  if getLowBits addr 12 = 0 then __freePages s (getPgnByPaddr addr) else s

def findFreeBplevel (s : BuddySys) (bplevel : ℕ) : Option ℕ :=
  (List.range' bplevel (maxBuddyOrder + 1 - bplevel)).find?
    fun i => !listEmpty s.links (.inl (.freelist i))

def splitDown (freePgn bplevel : ℕ) : ℕ → BuddySys → BuddySys
  | 0, s => s
  | n + 1, s => splitDown freePgn bplevel n
      (putFree s (getBuddyPgn freePgn (bplevel + n)) (bplevel + n))

def __allocPages (s : BuddySys) (bplevel type : ℕ) : BuddySys × Option ℕ :=
  if maxBuddyOrder < bplevel then (s, none)
  else
    match findFreeBplevel s bplevel with
    | none => (s, none)
    | some freeBplevel =>
      match listLastEntry s.links (.inl (.freelist freeBplevel)) with
      | none => (s, none)
      | some freePgn =>
        let s := { s with links := listDelInit s.links (.inr freePgn) }
        let s := splitDown freePgn bplevel (freeBplevel - bplevel) s
        let page := { s.pages freePgn with
          bplevel := bplevel, usedInfo := type, virtual := 0, cachep := none }
        ({ s with pages := Function.update s.pages freePgn page }, some freePgn)

def levelFor (pageNum : ℕ) : ℕ → ℕ → ℕ → ℕ
  | 0, _, bplevel => bplevel
  | fuel + 1, n, bplevel =>
    if n < pageNum then levelFor pageNum fuel (n * 2) (bplevel + 1) else bplevel

def allocPages (s : BuddySys) (size : ℕ) : BuddySys × Option ℕ :=
  let pageNum := upperAlign size (1 <<< pageShift) >>> pageShift
  let r := __allocPages s (levelFor pageNum 32 1 0) buddyAlloced
  (r.1, r.2.map getPagePaddr)

def allocOnePage (s : BuddySys) : BuddySys × Option ℕ := allocPages s pageSize

def reservedPage (page : Page) : Page := { page with bplevel := 0, usedInfo := buddyReserved }

def initBuddyPages (pageNum : ℕ) (pages : ℕ → Page) : ℕ → Page :=
  fun i => if i < pageNum then reservedPage (pages i) else pages i

def initBuddyLinks (pageNum : ℕ) (links : PageLinks) : PageLinks :=
  let links := (List.range pageNum).foldl (fun l i => initListHead l (.inr i)) links
  (List.range (maxBuddyOrder + 1)).foldl (fun l i => initListHead l (.inl (.freelist i))) links

/-- `boot_mm` as `init_buddy` finds it after the page array has been allocated: the reserved
memory ends inside the physical memory. -/
structure BootedMm extends BootmmSys where
  pageNum_le : pageNum ≤ machinePageNum
  reserved_le : (info 0).startAddr + (info 0).length ≤
    pageNum / 2 ^ maxBuddyOrder * 2 ^ maxBuddyOrder * pageSize

def initZone (boot : BootmmSys) (pages : ℕ → Page) (links : PageLinks) : BuddySys :=
  let reservedBytes := (boot.info 0).startAddr + (boot.info 0).length
  let reservedPages := upperAlign reservedBytes (1 <<< pageShift) >>> pageShift
  let startPfn := upperAlign reservedPages (1 <<< maxBuddyOrder)
  { pages := initBuddyPages boot.pageNum pages
    links := initBuddyLinks boot.pageNum links
    startPfn := startPfn
    pageNum := lowerAlign (boot.pageNum - startPfn) (1 <<< maxBuddyOrder) }

def initBuddy (boot : BootmmSys) (pages : ℕ → Page) (links : PageLinks) : BuddySys :=
  let s := initZone boot pages links
  (List.range s.pageNum).foldl (fun s i => __freePages s (s.startPfn + i)) s

end OurOS
