import OurOS.Mm.BootmmInfo
import OurOS.Mm.FindPages

namespace OurOS

open Extents

section Find

variable {mm : Bootmm} {e k : ℕ}

def FoundBlock (mm : Bootmm) (cnt e align r : ℕ) : Prop :=
  r ≠ 0 → align ∣ r ∧ FreeUpTo mm.pageMap e r (cnt + 1)

theorem LeastFrom.foundBlock {cnt align i r : ℕ} (h : LeastFrom mm (cnt + 1) e align i r) :
    FoundBlock mm cnt e align r := by
  rcases h with ⟨-, hd, hfree, -⟩ | ⟨rfl, -⟩
  · exact fun _ => ⟨hd, hfree⟩
  · exact fun h => absurd rfl h

theorem two_pow_shiftRight (k m : ℕ) :
    (if 2 ^ k >>> m = 0 then 1 else 2 ^ k >>> m) = 2 ^ (k - m) := by
  rw [Nat.shiftRight_eq_div_pow]
  rcases Nat.lt_or_ge k m with h | h
  · rw [if_pos (Nat.div_eq_of_lt (Nat.pow_lt_pow_right Nat.one_lt_two h)),
      Nat.sub_eq_zero_of_le h.le, pow_zero]
  · rw [Nat.pow_div h Nat.two_pos, if_neg (Nat.two_pow_pos _).ne']

theorem findPages_spec (pageCnt : ℕ) {first : ℕ} (hnum : mm.pageNum = machinePageNum) (hk : k < 32)
    (hfirst : first ≤ mm.pageNum) :
    ∃ r, findPages mm pageCnt first e (2 ^ k >>> pageShift) = some r ∧
      FoundBlock mm ((pageCnt + uintRange - 1) % uintRange) (mm.pageNum - 1) (2 ^ (k - pageShift))
        r := by
  have hmach : machinePageNum = 131072 := rfl
  have hpow : 2 ^ (k - pageShift) ≤ 2 ^ 19 :=
    Nat.pow_le_pow_right Nat.two_pos (by have : pageShift = 12 := rfl; omega)
  have hrange : uintRange = 2 ^ 32 := rfl
  obtain ⟨h1, h2⟩ := upperAlign_spec (x := first) (k := k - pageShift) (by omega) (by omega)
  obtain ⟨r, hr, hleast⟩ := @findLoop_least mm (min (mm.pageNum - 1) e) (k - pageShift)
    ((pageCnt + uintRange - 1) % uintRange) (by omega) (by omega) (mm.pageNum + 1)
    (upperAlign first (2 ^ (k - pageShift))) (Nat.succ_pos _) (by omega) h2
  refine ⟨r, ?_, fun h => ⟨(hleast.foundBlock h).1, fun p h3 h4 => ?_⟩⟩
  · rw [findPages, two_pow_shiftRight]
    exact hr
  · obtain ⟨h5, h6⟩ := (hleast.foundBlock h).2 p h3 h4
    exact ⟨h5.trans (min_le_left _ _), h6⟩

theorem pageCount_eq (size : ℕ) :
    pageCount size = (size + (pageSize - 1)) % uintRange / pageSize := by
  have hlt : (size + (2 ^ pageShift - 1)) % uintRange < uintRange :=
    Nat.mod_lt _ (by decide : 0 < uintRange)
  rw [pageCount, Nat.one_shiftLeft, upperAlign, lowerAlign_eq hlt (by decide),
    Nat.shiftRight_eq_div_pow, Nat.mul_div_cancel _ (Nat.two_pow_pos _)]
  rfl

structure PageBlock (mm : Bootmm) (size r : ℕ) : Prop where
  holds : size ≤ pageCount size * pageSize
  tight : pageCount size * pageSize < size + pageSize
  fits : r + pageCount size ≤ mm.pageNum
  free : ∀ p, r ≤ p → p < r + pageCount size → mm.pageMap p ≠ pageUsed

/-- A size whose number of pages wraps to 0 finds no block. -/
theorem FoundBlock.pageBlock {size align r : ℕ} (hnum : mm.pageNum = machinePageNum)
    (hsize : size < uintRange) (hpos : 0 < size) (hr : r ≠ 0)
    (h : FoundBlock mm ((pageCount size + uintRange - 1) % uintRange) (mm.pageNum - 1) align r) :
    align ∣ r ∧ PageBlock mm size r := by
  have hmach : machinePageNum = 131072 := rfl
  have hrange : uintRange = 4294967296 := rfl
  have hpage : pageSize = 4096 := rfl
  obtain ⟨hd, hfree⟩ := h hr
  have hcount := pageCount_eq size
  rw [hpage, hrange] at hcount
  have hlast := (hfree (r + (pageCount size + uintRange - 1) % uintRange) (by omega) (by omega)).1
  rw [hrange] at hlast hfree hsize
  have hne : pageCount size ≠ 0 := by
    intro hz
    rw [hz] at hlast
    omega
  refine ⟨hd, ⟨?_, ?_, ?_, fun p h1 h2 => (hfree p h1 (by omega)).2⟩⟩
  · rw [hpage]
    omega
  · rw [hpage]
    omega
  · omega

theorem searchPages_spec {size : ℕ} (hnum : mm.pageNum = machinePageNum)
    (hlast : mm.lastAllocEnd < mm.pageNum) (hsize : size < uintRange) (hpos : 0 < size)
    (hk : k < 32) :
    ∃ r, searchPages mm size (2 ^ k) = some r ∧
      (r ≠ 0 → 2 ^ (k - pageShift) ∣ r ∧ PageBlock mm size r) := by
  have hmach : machinePageNum = 131072 := rfl
  have hrange : uintRange = 4294967296 := rfl
  have hmod : (mm.lastAllocEnd + 1) % uintRange = mm.lastAllocEnd + 1 :=
    Nat.mod_eq_of_lt (by omega)
  obtain ⟨r, hr, h1⟩ := findPages_spec (pageCount size) (e := mm.pageNum - 1) hnum hk
    (Nat.succ_le_of_lt hlast)
  obtain ⟨q, hq, h2⟩ := findPages_spec (pageCount size) (e := mm.lastAllocEnd) hnum hk
    (Nat.zero_le mm.pageNum)
  have hrun : searchPages mm size (2 ^ k) = if r = 0 then some q else some r := by
    simp only [searchPages, hmod, hr, hq]
    rfl
  rw [hrun]
  by_cases hz : r = 0
  · exact ⟨q, if_pos hz, fun hne => h2.pageBlock hnum hsize hpos hne⟩
  · exact ⟨r, if_neg hz, fun hne => h1.pageBlock hnum hsize hpos hne⟩

end Find

def Allocation.extent (a : Allocation) : ℕ × ℕ := (a.addr, a.addr + a.size)

def takenExtents (live : List Allocation) : List (ℕ × ℕ) :=
  (0, kernelMmsize) :: live.map Allocation.extent

structure BootmmInv (mm : Bootmm) (live : List Allocation) : Prop where
  pageNum : mm.pageNum = machinePageNum
  lastAllocEnd : mm.lastAllocEnd < mm.pageNum
  blank : BlankBeyond mm
  bound : ∀ e ∈ mm.extents, 0 ≤ e.1 ∧ e.1 < e.2 ∧ e.2 ≤ machineMmsize
  taken : ∀ x, coverage mm.extents x = coverage (takenExtents live) x
  single : ∀ x, coverage mm.extents x ≤ 1
  within : ∀ a ∈ live, Within a.extent mm.extents
  live : ∀ a ∈ live, 0 < a.size ∧ pageSize ∣ a.addr ∧ a.align ∣ a.addr
  values : ∀ p, mm.pageMap p = pageFree ∨ mm.pageMap p = pageUsed
  pageMap : ∀ p, mm.pageMap p = pageUsed ↔ ∃ x, x / pageSize = p ∧ 0 < coverage mm.extents x

/-- The call is one that the kernel may make, and leaves the array of records not full. -/
def Callable (t : BootmmTrace) : BootmmOp → Prop
  | .alloc size _ align =>
    0 < size ∧ size < uintRange ∧ (∃ k < 32, align = 2 ^ k) ∧ t.mm.infoCnt < maxMminfoNum
  | .free a => a ∈ t.live ∧ t.mm.infoCnt < maxMminfoNum ∧
    ∀ i < t.mm.infoCnt, (splitBootmmInfo t.mm i a.addr).1.infoCnt < maxMminfoNum

/-- A block that is allocated really touches the record that it is merged with, and one that is
freed fills its pages. -/
def TouchesOrFills (t : BootmmTrace) : BootmmOp → Prop
  | .alloc size type align => ∀ r ∈ searchPages t.mm size align, r ≠ 0 →
    ∀ i ∈ firstMatch t.mm (r <<< pageShift) size type,
      (t.mm.info i).stop = r <<< pageShift ∨ (t.mm.info i).startAddr = r <<< pageShift + size
  | .free a => pageSize ∣ a.size

instance : ∀ t op, Decidable (Callable t op)
  | _, .alloc .. => inferInstanceAs (Decidable (_ ∧ _))
  | _, .free _ => inferInstanceAs (Decidable (_ ∧ _))

instance : ∀ t op, Decidable (TouchesOrFills t op)
  | _, .alloc .. => inferInstanceAs (Decidable (∀ r ∈ _, r ≠ 0 → ∀ i ∈ _, _ ∨ _))
  | _, .free _ => inferInstanceAs (Decidable (_ ∣ _))

section Init

theorem initBootmm_extents : initBootmm.extents = [(0, kernelMmsize)] := by
  decide

theorem initBootmm_pageMap (p : ℕ) :
    initBootmm.pageMap p = if p < kernelPageNum then pageUsed else pageFree := by
  have hmap : initBootmm.pageMap p =
      if 0 ≤ p ∧ p < 0 + kernelMmsize >>> pageShift then pageUsed else pageFree := rfl
  rw [hmap]
  exact if_congr (by rw [zero_add, kernelPageNum]; exact and_iff_right (Nat.zero_le p)) rfl rfl

theorem initBootmm_inv : BootmmInv initBootmm [] := by
  have hext : initBootmm.extents = [(0, kernelMmsize)] := initBootmm_extents
  have hcov (x : ℕ) : coverage initBootmm.extents x = if x < kernelMmsize then 1 else 0 := by
    rw [hext, coverage_cons, coverage_nil, zero_add]
    exact if_congr (and_iff_right (Nat.zero_le x)) rfl rfl
  refine ⟨by decide, by decide, fun i hi => ?_, ?_, fun x => ?_, fun x => ?_, by simp, by simp, fun p => ?_,
    fun p => ?_⟩
  · have hi : 1 ≤ i := hi
    exact Function.update_of_ne (Nat.ne_of_gt hi) _ _
  · rw [hext]
    decide
  · rw [hext]
    rfl
  · rw [hcov]
    split_ifs <;> decide
  · rw [initBootmm_pageMap]
    split_ifs
    exacts [.inr rfl, .inl rfl]
  · have hused : initBootmm.pageMap p = pageUsed ↔ p < kernelPageNum := by
      rw [initBootmm_pageMap]
      split_ifs with hp
      · exact ⟨fun _ => hp, fun _ => rfl⟩
      · exact ⟨fun h => absurd h (by decide), fun h => absurd h hp⟩
    simp only [hused, hcov]
    have hk : kernelPageNum * pageSize = kernelMmsize := by decide
    have hpage : pageSize = 4096 := rfl
    rw [hpage] at hk ⊢
    constructor
    · exact fun hp => ⟨p * 4096, by omega, by rw [if_pos (by omega)]; exact Nat.one_pos⟩
    · rintro ⟨x, hx, hpos⟩
      by_contra hno
      rw [if_neg (by omega)] at hpos
      exact absurd hpos (lt_irrefl 0)

end Init

section Alloc

variable {mm mm' : Bootmm} {size type k r : ℕ} {live : List Allocation}

structure BlockAllocated (mm mm' : Bootmm) (size k r : ℕ) : Prop where
  pos : r ≠ 0
  align : 2 ^ (k - pageShift) ∣ r
  block : PageBlock mm size r
  joins : Joins ((r * pageSize, r * pageSize + size) :: mm.extents) mm'.extents
  blank : BlankBeyond mm'
  pageNum : mm'.pageNum = mm.pageNum
  lastAllocEnd : mm'.lastAllocEnd = r + pageCount size - 1
  pageMap : ∀ p, mm'.pageMap p =
    if r ≤ p ∧ p < r + pageCount size then pageUsed else mm.pageMap p

theorem BootmmInv.insertAt (h : BootmmInv mm live) (hb : PageBlock mm size r) (hpos : 0 < size) :
    InsertAt mm (r * pageSize) size machineMmsize := by
  refine ⟨h.blank, fun e he => (h.bound e he).2, hpos, ?_, by decide⟩
  have h1 := hb.holds
  have h2 := hb.fits.trans_eq h.pageNum
  have h3 : machinePageNum * pageSize = machineMmsize := by decide
  have h4 := Nat.mul_le_mul_right pageSize h2
  rw [Nat.add_mul] at h4
  omega

theorem bootmmAllocPage_spec (h : BootmmInv mm live)
    (hc : Callable ⟨mm, live⟩ (.alloc size type (2 ^ k))) (hk : k < 32)
    (ht : TouchesOrFills ⟨mm, live⟩ (.alloc size type (2 ^ k))) :
    bootmmAllocPage mm size type (2 ^ k) = some (0, mm) ∨ ∃ r mm',
      bootmmAllocPage mm size type (2 ^ k) = some (r * pageSize, mm') ∧ BlockAllocated mm mm' size k r := by
  obtain ⟨hpos, hsize, -, hmax⟩ := hc
  obtain ⟨r, hr, hfound⟩ := searchPages_spec h.pageNum h.lastAllocEnd hsize hpos hk
  by_cases hz : r = 0
  · left
    rw [bootmmAllocPage, hr, hz]
    rfl
  right
  obtain ⟨halign, hblock⟩ := hfound hz
  have hshift : r <<< pageShift = r * pageSize := Nat.shiftLeft_eq r pageShift
  have hat := ht r hr hz
  rw [hshift] at hat
  obtain ⟨hret, hin⟩ := insertBootmmInfo_spec (h.insertAt hblock hpos) hmax hat
  let mm1 := (insertBootmmInfo mm (r * pageSize) size type).1
  let mm2 := { mm1 with lastAllocEnd := r + pageCount size - 1 }
  refine ⟨r, setPageMap mm2 r pageUsed (pageCount size), ?_, hz, halign, hblock, hin.joins,
    hin.blank, hin.same.pageNum, rfl, fun p => ?_⟩
  · simp only [bootmmAllocPage, hr, Option.bind_eq_bind, Option.bind_some, if_neg hz, hshift,
      if_pos hret]
    rfl
  · exact congrArg (fun map : ℕ → ℕ =>
      if r ≤ p ∧ p < r + pageCount size then pageUsed else map p) hin.same.pageMap

theorem PageBlock.page_iff (hb : PageBlock mm size r) (p : ℕ) :
    (r ≤ p ∧ p < r + pageCount size) ↔
      ∃ x, x / pageSize = p ∧ Covers (r * pageSize, r * pageSize + size) x := by
  have h1 := hb.holds
  have h2 := hb.tight
  have hpage : pageSize = 4096 := rfl
  rw [hpage] at h1 h2 ⊢
  constructor
  · rintro ⟨h3, h4⟩
    have h5 : r * 4096 ≤ p * 4096 := Nat.mul_le_mul_right 4096 h3
    have h6 : p * 4096 < r * 4096 + size := by grind
    exact ⟨p * 4096, Nat.mul_div_cancel p (by decide), h5, h6⟩
  · rintro ⟨x, rfl, h3, h4⟩
    dsimp only at h3 h4
    omega

theorem BlockAllocated.coverage_free (h : BootmmInv mm live) (ha : BlockAllocated mm mm' size k r)
    {x : ℕ} (hx : Covers (r * pageSize, r * pageSize + size) x) :
    coverage mm.extents x = 0 := by
  obtain ⟨h1, h2⟩ := (ha.block.page_iff (x / pageSize)).mpr ⟨x, rfl, hx⟩
  by_contra hne
  exact ha.block.free _ h1 h2 ((h.pageMap _).mpr ⟨x, rfl, Nat.pos_of_ne_zero hne⟩)

theorem two_pow_dvd_page (hr : 2 ^ (k - pageShift) ∣ r) : 2 ^ k ∣ r * pageSize := by
  have hdvd : 2 ^ k ∣ 2 ^ (k - pageShift) * 2 ^ pageShift := by
    rw [← pow_add]
    exact Nat.pow_dvd_pow 2 (by omega)
  exact hdvd.trans (Nat.mul_dvd_mul_right hr _)

theorem BlockAllocated.inv (h : BootmmInv mm live) (ha : BlockAllocated mm mm' size k r)
    (hpos : 0 < size) : BootmmInv mm' (⟨r * pageSize, size, 2 ^ k⟩ :: live) := by
  have hcov := fun x => (ha.joins.coverage x).trans (coverage_cons _ _ _)
  have hat := h.insertAt ha.block hpos
  have hnum := h.pageNum
  have hcount : 0 < pageCount size := by
    have h1 := ha.block.holds
    by_contra hz
    rw [Nat.eq_zero_of_not_pos hz] at h1
    omega
  refine ⟨ha.pageNum.trans hnum, ?_, ha.blank, ?_, fun x => ?_, fun x => ?_, fun a hm => ?_,
    fun a hm => ?_, fun p => ?_, fun p => ?_⟩
  · have h1 := ha.block.fits
    rw [ha.lastAllocEnd, ha.pageNum]
    omega
  · refine ha.joins.bounded fun e he => ?_
    rcases List.mem_cons.mp he with rfl | he
    · exact ⟨Nat.zero_le _, Nat.lt_add_of_pos_right hpos, hat.below⟩
    · exact h.bound e he
  · rw [hcov, h.taken x]
    simp only [takenExtents, List.map_cons, coverage_cons, Allocation.extent]
    omega
  · rw [hcov]
    split_ifs with hx
    · rw [ha.coverage_free h hx]
    · exact h.single x
  · rcases List.mem_cons.mp hm with rfl | hm
    · exact ha.joins.within ⟨_, List.mem_cons_self, le_rfl, le_rfl⟩
    · obtain ⟨e, he, hle⟩ := h.within a hm
      exact ha.joins.within ⟨e, List.mem_cons_of_mem _ he, hle⟩
  · rcases List.mem_cons.mp hm with rfl | hm
    · exact ⟨hpos, Nat.dvd_mul_left _ _, two_pow_dvd_page ha.align⟩
    · exact h.live a hm
  · rw [ha.pageMap]
    split_ifs
    · exact .inr rfl
    · exact h.values p
  · have hused : mm'.pageMap p = pageUsed ↔
        (r ≤ p ∧ p < r + pageCount size) ∨ mm.pageMap p = pageUsed := by
      rw [ha.pageMap]
      split_ifs with hin
      · exact ⟨fun _ => .inl hin, fun _ => rfl⟩
      · exact ⟨.inr, fun h => h.resolve_left hin⟩
    rw [hused, ha.block.page_iff, h.pageMap p, ← exists_or]
    refine exists_congr fun x => ?_
    rw [hcov, ← and_or_left]
    refine and_congr_right fun _ => ?_
    split_ifs with hx
    · exact ⟨fun _ => Nat.succ_pos _, fun _ => .inl hx⟩
    · exact ⟨fun h => h.resolve_left hx, .inr⟩

end Alloc

section Free

variable {mm mm' : Bootmm} {a b : Allocation} {live : List Allocation}

structure BlockFreed (mm mm' : Bootmm) (a : Allocation) : Prop where
  cut : Cut mm.extents mm'.extents a.extent
  blank : BlankBeyond mm'
  pageNum : mm'.pageNum = mm.pageNum
  lastAllocEnd : mm'.lastAllocEnd = mm.lastAllocEnd
  pageMap : ∀ p, mm'.pageMap p = if a.addr / pageSize ≤ p ∧
    p < a.addr / pageSize + a.size / pageSize then pageFree else mm.pageMap p

theorem freeLoop_skip {addr size pfn cnt fuel i : ℕ} (hpos : 0 < fuel)
    (hfuel : mm.infoCnt < fuel + i)
    (h : ∀ j, i ≤ j → j < mm.infoCnt → addr < (mm.info j).startAddr ∨ (mm.info j).stop ≤ addr) :
    freeLoop addr size pfn cnt fuel i mm = some mm := by
  induction fuel generalizing i with
  | zero => cases hpos
  | succ fuel ih =>
    rw [freeLoop]
    by_cases hi : mm.infoCnt ≤ i
    · exact if_pos hi
    · rw [if_neg hi]
      exact (if_pos (h i le_rfl (not_le.mp hi))).trans
        (ih (by omega) (by omega) fun j hj => h j (Nat.le_of_succ_le hj))

theorem freeLoop_reach {addr size pfn cnt fuel k : ℕ} (n : ℕ) {i : ℕ} (hi : i + n = k)
    (hk : k < mm.infoCnt)
    (h : ∀ j, i ≤ j → j < k → addr < (mm.info j).startAddr ∨ (mm.info j).stop ≤ addr) :
    freeLoop addr size pfn cnt (fuel + n) i mm = freeLoop addr size pfn cnt fuel k mm := by
  induction n generalizing i with
  | zero => rw [← hi]; rfl
  | succ n ih =>
    rw [Nat.add_succ, freeLoop, if_neg (by omega)]
    exact (if_pos (h i le_rfl (by omega))).trans
      (ih (by omega) fun j hj => h j (Nat.le_of_succ_le hj))

theorem extents_apart (h : ∀ x, coverage mm.extents x ≤ 1) {i j : ℕ} (hi : i < mm.infoCnt)
    (hj : j < mm.infoCnt) (hne : j ≠ i) : Apart (mm.info i).extent (mm.info j).extent := by
  intro x hx
  have h1 := h x
  have h2 : 0 < coverage (mm.others i) x := coverage_pos.mpr ⟨_, extent_mem_others hj hne, hx.2⟩
  rw [coverage_perm (extents_perm hi), coverage_cons, if_pos hx.1] at h1
  omega

theorem stop_eq (h : ∀ e ∈ mm.extents, 0 ≤ e.1 ∧ e.1 < e.2 ∧ e.2 ≤ machineMmsize) {i : ℕ}
    (hi : i < mm.infoCnt) :
    (mm.info i).stop = (mm.info i).startAddr + (mm.info i).length :=
  Nat.mod_eq_of_lt ((h _ (extent_mem_extents hi)).2.2.trans_lt (by decide))

theorem BootmmInv.live_size (h : BootmmInv mm live) (ha : a ∈ live) : 0 < a.size :=
  (h.live a ha).1

theorem takenExtents_erase (ha : a ∈ live) (x : ℕ) :
    coverage (takenExtents live) x =
      coverage (takenExtents (live.erase a)) x + if Covers a.extent x then 1 else 0 := by
  have hp := (List.perm_cons_erase ha).map Allocation.extent
  simp only [takenExtents, coverage_cons, coverage_perm hp, List.map_cons]
  omega

theorem live_apart (h : BootmmInv mm live) (ha : a ∈ live) (hb : b ∈ live.erase a) :
    Apart a.extent b.extent := by
  intro x hx
  have h1 := h.single x
  rw [h.taken x, takenExtents_erase ha, if_pos hx.1] at h1
  have h2 : 0 < coverage (takenExtents (live.erase a)) x := coverage_pos.mpr
    ⟨b.extent, List.mem_cons_of_mem _ (List.mem_map.mpr ⟨b, hb, rfl⟩), hx.2⟩
  omega

theorem kernel_apart (h : BootmmInv mm live) (ha : a ∈ live) : kernelMmsize ≤ a.addr := by
  by_contra hlt
  have h1 := h.single a.addr
  have hpos := h.live_size ha
  rw [h.taken, takenExtents_erase ha, takenExtents, coverage_cons,
    if_pos ⟨Nat.zero_le _, not_le.mp hlt⟩,
    if_pos ⟨le_rfl, Nat.lt_add_of_pos_right hpos⟩] at h1
  omega

structure HeldAt (mm : Bootmm) (a : Allocation) (k : ℕ) : Prop where
  lt : k < mm.infoCnt
  start : (mm.info k).startAddr ≤ a.addr
  stop : a.addr + a.size ≤ (mm.info k).startAddr + (mm.info k).length
  wrap : (mm.info k).startAddr + (mm.info k).length < uintRange
  skip : ∀ j < k, a.addr < (mm.info j).startAddr ∨ (mm.info j).stop ≤ a.addr

theorem BootmmInv.heldAt (h : BootmmInv mm live) (ha : a ∈ live) : ∃ k, HeldAt mm a k := by
  obtain ⟨e, he, h1, h2⟩ := h.within a ha
  obtain ⟨k, hk, rfl⟩ := List.mem_map.mp he
  have hk := List.mem_range.mp hk
  have hin : Covers (mm.info k).extent a.addr :=
    ⟨h1, (Nat.lt_add_of_pos_right (h.live_size ha)).trans_le h2⟩
  refine ⟨k, hk, h1, h2, (h.bound _ he).2.2.trans_lt (by decide), fun j hj => ?_⟩
  have hap := extents_apart h.single hk (hj.trans hk) hj.ne a.addr
  rw [stop_eq h.bound (hj.trans hk)]
  by_contra hno
  push Not at hno
  exact hap ⟨hin, hno⟩

theorem not_held_after (h : BootmmInv mm live) (hpos : 0 < a.size)
    (hcut : Cut mm.extents mm'.extents a.extent) {j : ℕ} (hj : j < mm'.infoCnt) :
    a.addr < (mm'.info j).startAddr ∨ (mm'.info j).stop ≤ a.addr := by
  have hcov := hcut.coverage a.addr
  rw [if_pos ⟨le_rfl, Nat.lt_add_of_pos_right hpos⟩] at hcov
  have hone := h.single a.addr
  rw [stop_eq (hcut.bounded h.bound) hj]
  by_contra hno
  push Not at hno
  have := coverage_pos.mpr ⟨_, extent_mem_extents hj, hno⟩
  omega

theorem freeLoop_spec (h : BootmmInv mm live) (hc : Callable ⟨mm, live⟩ (.free a)) (pfn cnt : ℕ) :
    ∃ k, freeLoop a.addr a.size pfn cnt (maxMminfoNum + 1) 0 mm =
      some (setPageMap (cutBootmmInfo mm k a.addr a.size) pfn pageFree cnt) ∧
        CutOut mm (cutBootmmInfo mm k a.addr a.size) a.addr a.size := by
  obtain ⟨ha, hmax, hroom⟩ := hc
  dsimp only at ha hmax hroom
  have hpos := h.live_size ha
  obtain ⟨k, hk⟩ := h.heldAt ha
  have hcut := cutBootmmInfo_spec hk.lt hmax hk.wrap hpos hk.start hk.stop (hroom k hk.lt)
  have hcnt := hcut.infoCnt
  have hk16 := hk.lt
  have h16 : maxMminfoNum = 16 := rfl
  have hfuel : maxMminfoNum + 1 = (maxMminfoNum - k) + 1 + k := by omega
  have hin : ¬(a.addr < (mm.info k).startAddr ∨ (mm.info k).stop ≤ a.addr) := by
    have h1 := hk.start
    have h2 := hk.stop
    rw [BootmmInfo.stop, Nat.mod_eq_of_lt hk.wrap]
    omega
  have hrest : ¬(mm.info k).length - (a.addr - (mm.info k).startAddr) < a.size := by
    have h1 := hk.start
    have h2 := hk.stop
    omega
  refine ⟨k, ?_, hcut⟩
  rw [hfuel, freeLoop_reach k (Nat.zero_add k) hk.lt fun j _ => hk.skip j, freeLoop,
    if_neg (not_le.mpr hk.lt)]
  refine (if_neg hin).trans ((if_neg hrest).trans (freeLoop_skip (by omega) ?_ fun j _ hj => ?_))
  · change (cutBootmmInfo mm k a.addr a.size).infoCnt < _
    omega
  · exact not_held_after h hpos hcut.cut hj

theorem bootmmFreePage_spec (h : BootmmInv mm live) (hc : Callable ⟨mm, live⟩ (.free a))
    (hfill : pageSize ∣ a.size) :
    ∃ mm', bootmmFreePage mm a.addr a.size = some mm' ∧ BlockFreed mm mm' a := by
  have ha : a ∈ live := hc.1
  obtain ⟨hpos, haddr, -⟩ := h.live a ha
  have hkernel := kernel_apart h ha
  have hdiv (x : ℕ) : x >>> pageShift = x / pageSize := Nat.shiftRight_eq_div_pow x pageShift
  have hlow : getLowBits a.addr pageShift = 0 := by
    rw [getLowBits, if_neg (by decide), Nat.and_two_pow_sub_one_eq_mod]
    exact Nat.mod_eq_zero_of_dvd haddr
  have hpfn : ¬a.addr / pageSize < kernelPageNum :=
    not_lt.mpr ((Nat.le_div_iff_mul_le (by decide)).mpr hkernel)
  have hcnt : a.size / pageSize ≠ 0 := (Nat.div_pos (Nat.le_of_dvd hpos hfill) (by decide)).ne'
  obtain ⟨k, hk, hcut⟩ := freeLoop_spec h hc (a.addr / pageSize) (a.size / pageSize)
  refine ⟨setPageMap (cutBootmmInfo mm k a.addr a.size) (a.addr / pageSize) pageFree
    (a.size / pageSize), ?_, hcut.cut, hcut.blank h.blank, hcut.same.pageNum,
    hcut.same.lastAllocEnd, fun p => ?_⟩
  · rw [bootmmFreePage, if_neg (not_not.mpr hlow), hdiv, hdiv]
    exact (if_neg hpfn).trans ((if_neg hcnt).trans hk)
  · exact congrArg (fun map : ℕ → ℕ => if a.addr / pageSize ≤ p ∧
      p < a.addr / pageSize + a.size / pageSize then pageFree else map p) hcut.same.pageMap

theorem covers_iff_page (haddr : pageSize ∣ a.addr) (hfill : pageSize ∣ a.size) (x : ℕ) :
    Covers a.extent x ↔ a.addr / pageSize ≤ x / pageSize ∧
      x / pageSize < a.addr / pageSize + a.size / pageSize := by
  obtain ⟨u, hu⟩ := haddr
  obtain ⟨v, hv⟩ := hfill
  have hpage : pageSize = 4096 := rfl
  have hcov : Covers a.extent x ↔ a.addr ≤ x ∧ x < a.addr + a.size := Iff.rfl
  rw [hcov, hu, hv, hpage]
  omega

theorem BlockFreed.inv (h : BootmmInv mm live) (hf : BlockFreed mm mm' a) (ha : a ∈ live)
    (hfill : pageSize ∣ a.size) : BootmmInv mm' (live.erase a) := by
  have hcov := hf.cut.coverage
  have hpage := covers_iff_page (h.live a ha).2.1 hfill
  refine ⟨hf.pageNum.trans h.pageNum, ?_, hf.blank, hf.cut.bounded h.bound, fun x => ?_,
    fun x => ?_, fun b hb => ?_, fun b hb => h.live b (List.mem_of_mem_erase hb), fun p => ?_,
    fun p => ?_⟩
  · rw [hf.lastAllocEnd, hf.pageNum]
    exact h.lastAllocEnd
  · have h1 := h.taken x
    rw [hcov, takenExtents_erase ha] at h1
    omega
  · have h1 := h.single x
    rw [hcov] at h1
    omega
  · have hb' := List.mem_of_mem_erase hb
    exact hf.cut.within (h.within b hb') (Nat.lt_add_of_pos_right (h.live_size hb'))
      (live_apart h ha hb)
  · rw [hf.pageMap]
    split_ifs
    · exact .inl rfl
    · exact h.values p
  · rw [hf.pageMap]
    split_ifs with hin
    · refine ⟨fun h => absurd h (by decide), ?_⟩
      rintro ⟨x, rfl, hx⟩
      have h1 := h.single x
      rw [hcov, if_pos ((hpage x).mpr hin)] at h1
      omega
    · rw [h.pageMap p]
      refine exists_congr fun x => and_congr_right fun hx => ?_
      rw [hcov, if_neg fun hc => hin (hx ▸ (hpage x).mp hc), Nat.add_zero]

end Free

section Run

variable {t u v : BootmmTrace}

theorem bootmmStep_inv {op : BootmmOp} (h : BootmmInv t.mm t.live) (hc : Callable t op)
    (ht : TouchesOrFills t op) : ∃ u, bootmmStep t op = some u ∧ BootmmInv u.mm u.live := by
  cases op with
  | alloc size type align =>
    obtain ⟨k, hk, rfl⟩ := hc.2.2.1
    rcases bootmmAllocPage_spec h hc hk ht with hr | ⟨r, mm', hr, hal⟩
    · exact ⟨t, by rw [bootmmStep, hr]; rfl, h⟩
    · have hne : r * pageSize ≠ 0 := Nat.mul_ne_zero hal.pos (by decide)
      refine ⟨⟨mm', ⟨r * pageSize, size, 2 ^ k⟩ :: t.live⟩, ?_, hal.inv h hc.1⟩
      simp only [bootmmStep, hr, Option.bind_eq_bind, Option.bind_some, if_neg hne]
      rfl
  | free a =>
    obtain ⟨mm', hr, hf⟩ := bootmmFreePage_spec h hc ht
    exact ⟨⟨mm', t.live.erase a⟩, by rw [bootmmStep, hr]; rfl, hf.inv h hc.1 ht⟩

/-- The records are disjoint, the page map is that of their pages, and the allocations that are
not freed are disjoint, aligned and outside the memory of the kernel. -/
structure BootmmOk (t : BootmmTrace) : Prop where
  infos : t.mm.extents.Pairwise Apart
  pageMap : ∀ p < t.mm.pageNum, t.mm.pageMap p = pageUsed ↔
    ∃ e ∈ t.mm.extents, ∃ x, Covers e x ∧ x / pageSize = p
  live : (t.live.map Allocation.extent).Pairwise Apart
  aligned : ∀ a ∈ t.live, a.align ∣ a.addr
  outside : ∀ a ∈ t.live, kernelMmsize ≤ a.addr

def FreeRestores (C : BootmmTrace → BootmmOp → Prop) (t : BootmmTrace) : Prop :=
  ∀ size type align a u v, C t (.alloc size type align) →
    bootmmStep t (.alloc size type align) = some u → u.live = a :: t.live →
    C u (.free a) → bootmmStep u (.free a) = some v → v.mm.pageMap = t.mm.pageMap

theorem BootmmInv.ok (h : BootmmInv t.mm t.live) : BootmmOk t := by
  refine ⟨pairwise_of_coverage h.single, fun p _ => ?_, pairwise_of_coverage fun x => ?_,
    fun a ha => (h.live a ha).2.2, fun a ha => kernel_apart h ha⟩
  · rw [h.pageMap p]
    constructor
    · rintro ⟨x, rfl, hx⟩
      obtain ⟨e, he, hcov⟩ := coverage_pos.mp hx
      exact ⟨e, he, x, hcov, rfl⟩
    · rintro ⟨e, he, x, hcov, rfl⟩
      exact ⟨x, rfl, coverage_pos.mpr ⟨e, he, hcov⟩⟩
  · have h1 := h.single x
    rw [h.taken, takenExtents, coverage_cons] at h1
    omega

theorem BootmmInv.freeRestores (h : BootmmInv t.mm t.live) :
    FreeRestores (fun t op => Callable t op ∧ TouchesOrFills t op) t := by
  rintro size type align a u v ⟨hc, ht⟩ hu hlive ⟨hc', ht'⟩ hv
  obtain ⟨k, hk, rfl⟩ := hc.2.2.1
  rcases bootmmAllocPage_spec h hc hk ht with hr | ⟨r, mm', hr, hal⟩
  · rw [bootmmStep, hr] at hu
    obtain rfl := Option.some.inj hu
    exact absurd hlive.symm (List.cons_ne_self a t.live)
  have hne : r * pageSize ≠ 0 := Nat.mul_ne_zero hal.pos (by decide)
  simp only [bootmmStep, hr, Option.bind_eq_bind, Option.bind_some, if_neg hne] at hu
  obtain rfl := Option.some.inj hu
  obtain ⟨rfl, -⟩ := List.cons.inj hlive
  obtain ⟨mm'', hr', hf⟩ := bootmmFreePage_spec (hal.inv h hc.1) hc' ht'
  rw [bootmmStep, hr'] at hv
  obtain rfl := Option.some.inj hv
  have hstart : r * pageSize / pageSize = r := Nat.mul_div_cancel r (by decide)
  have hcount : size / pageSize = pageCount size := by
    obtain ⟨n, hn⟩ := ht'
    have h1 := hal.block.holds
    have h2 := hal.block.tight
    have hpage : pageSize = 4096 := rfl
    rw [hpage] at h1 h2 hn ⊢
    dsimp only at hn
    omega
  funext p
  change mm''.pageMap p = t.mm.pageMap p
  rw [hf.pageMap, hal.pageMap]
  dsimp only
  rw [hstart, hcount]
  split_ifs with hin
  · exact ((h.values p).resolve_right (hal.block.free p hin.1 hin.2)).symm
  · rfl

theorem bootmm_consistent (ops : List BootmmOp)
    (hops : RunMeets bootmmStep (fun t op => Callable t op ∧ TouchesOrFills t op) bootmmStart ops) :
    ∃ t, runOps bootmmStep bootmmStart ops = some t ∧ BootmmOk t ∧
      FreeRestores (fun t op => Callable t op ∧ TouchesOrFills t op) t := by
  obtain ⟨t, ht, h⟩ := runOps_of_meets (P := fun t => BootmmInv t.mm t.live)
    (fun s op h hc => bootmmStep_inv h hc.1 hc.2) initBootmm_inv hops
  exact ⟨t, ht, h.ok, h.freeRestores⟩

def wholePageOps : List BootmmOp :=
  [.alloc 8192 mminfoTypeKernel kernelMmsize, .alloc 4096 1 kernelMmsize,
    .free ⟨kernelMmsize, 8192, kernelMmsize⟩]

theorem bootmm_consistent_whole : ∃ t, runOps bootmmStep bootmmStart wholePageOps = some t ∧
    BootmmOk t ∧ FreeRestores (fun t op => Callable t op ∧ TouchesOrFills t op) t :=
  bootmm_consistent wholePageOps (by decide +kernel)

def partPageOps : List BootmmOp :=
  [.alloc 6000 mminfoTypeKernel kernelMmsize, .free ⟨kernelMmsize, 6000, kernelMmsize⟩]

/-- The second page of an allocation of 6000 bytes stays used after it is freed. -/
theorem bootmm_part_page : ¬ ∀ ops, RunMeets bootmmStep Callable bootmmStart ops →
    ∃ t, runOps bootmmStep bootmmStart ops = some t ∧ BootmmOk t ∧ FreeRestores Callable t := by
  intro hall
  obtain ⟨t, ht, hok, -⟩ := hall partPageOps (by decide +kernel)
  have hused : (runOps bootmmStep bootmmStart partPageOps).map (fun t =>
      (t.mm.pageMap 4097, t.mm.extents, t.mm.pageNum)) =
        some (pageUsed, [(0, kernelMmsize)], machinePageNum) := by decide +kernel
  rw [ht] at hused
  obtain ⟨h1, h2⟩ := Prod.mk.inj (Option.some.inj hused)
  obtain ⟨h2, h3⟩ := Prod.mk.inj h2
  obtain ⟨e, he, x, hx, hp⟩ := (hok.pageMap 4097 (h3 ▸ by decide)).mp h1
  rw [h2] at he
  obtain rfl := List.mem_singleton.mp he
  have hlt : x < kernelMmsize := hx.2
  have hk : kernelMmsize = 4096 * pageSize := by decide
  have hpage : pageSize = 4096 := rfl
  rw [hpage] at hp hk
  omega

end Run

end OurOS
