import OurOS.Mm.SlabRun

set_option linter.style.nameCheck false

namespace OurOS

open AlignedBlocks Links

inductive ObjectOp where
  | alloc (i : ℕ)
  | free (i objp : ℕ)
deriving DecidableEq, Repr

inductive CacheOp where
  | object (op : ObjectOp)
  | freePage (i pgn : ℕ)
deriving DecidableEq, Repr

/-- `live` has the objects handed out, `held` the pages obtained from the buddy system and not yet
returned, both with their cache. -/
structure CacheTrace where
  sys : SlabSys
  live : List (ℕ × ℕ)
  held : List (ℕ × ℕ)

def objectStep (t : CacheTrace) : ObjectOp → Option CacheTrace
  | .alloc i =>
    if i < kmemCacheNum then
      let r := kmemCacheAlloc t.sys i
      some ⟨r.1, r.2.toList.map (i, ·) ++ t.live,
        (obtainedPage t.sys i).toList.map (i, ·) ++ t.held⟩
    else none
  | .free i objp =>
    if (i, objp) ∈ t.live then
      some ⟨kmemCacheFree t.sys i objp, t.live.erase (i, objp), t.held⟩
    else none

def cacheStep (t : CacheTrace) : CacheOp → Option CacheTrace
  | .object op => objectStep t op
  | .freePage i pgn =>
    if (i, pgn) ∈ t.held then
      some ⟨kmemCacheFreePage t.sys (pageVaddr pgn), t.live,
        if (t.sys.slabs (pageVaddr pgn)).allocNum = 0 then t.held.filter (· ≠ (i, pgn))
        else t.held⟩
    else none

def cacheStart (boot : BootedMm) (pages : ℕ → Page) (links : PageLinks) (caches : ℕ → KmemCache)
    (slabs : ℕ → SlabHead) (objects : ObjectLinks) : CacheTrace :=
  ⟨(slabStart boot pages links caches slabs objects).sys, [], []⟩

structure CacheInv (t : CacheTrace) (B : Set Block) (lists : PageList → List ℕ)
    (objs : SlabList → List ℕ) : Prop where
  inv : SlabInv t.sys B lists objs
  nodup : t.live.Nodup
  live : ∀ i x, (i, x) ∈ t.live → ∃ p, liveObject lists objs i p x
  held : ∀ i p, (i, p) ∈ t.held ↔ onCache lists i p

theorem cacheStart_inv (boot : BootedMm) (pages : ℕ → Page) (links : PageLinks)
    (caches : ℕ → KmemCache) (slabs : ℕ → SlabHead) (objects : ObjectLinks) :
    ∃ B lists objs, CacheInv (cacheStart boot pages links caches slabs objects) B lists objs := by
  obtain ⟨B, lists, objs, hi, hnone⟩ := slabStart_inv boot pages links caches slabs objects
  refine ⟨B, lists, objs, hi.inv, List.nodup_nil, fun i x hx => ?_, fun i p => ?_⟩
  · simp [cacheStart] at hx
  · simpa [cacheStart] using hnone i p

namespace SlabInv

variable {s : SlabSys} {B : Set Block} {lists : PageList → List ℕ} {objs : SlabList → List ℕ}
  {i p x : ℕ}

theorem obtainedPage_exhausted (hi : SlabInv s B lists objs) (he : Exhausted s B lists i) :
    obtainedPage s i = none := by
  rw [obtainedPage]
  split
  · cases hr : __allocPages s.buddy 0 buddySlab with
    | mk b o =>
      cases o with
      | none => rfl
      | some p =>
        obtain ⟨c, hc, -⟩ := hi.buddy.free_of_alloc_some hr
        simp [he.blocks] at hc
  · rfl

theorem object_page (hi : SlabInv s B lists objs) (hx : liveObject lists objs i p x) :
    x ∈ pageMem p := by
  have hr := hi.node_range hx.1 (.inl hx.2)
  rw [pageMem, Set.mem_Ico]
  have hlb : listHeadBytes = 8 := rfl
  omega

end SlabInv

namespace CacheInv

open SlabInv

variable {t u : CacheTrace} {B : Set Block} {lists : PageList → List ℕ} {objs : SlabList → List ℕ}
  {i p x : ℕ}

theorem alloc (hi : CacheInv t B lists objs) (h : objectStep t (.alloc i) = some u) :
    ∃ C lists' objs', CacheInv u C lists' objs' ∧
      LiveFrame t.sys u.sys B C lists lists' objs objs' i (obtainedPage t.sys i) ∅ := by
  obtain ⟨v, r, hr⟩ : ∃ v r, kmemCacheAlloc t.sys i = (v, r) := ⟨_, _, rfl⟩
  simp only [objectStep, hr] at h
  split_ifs at h with hlt
  obtain rfl := Option.some.inj h
  rcases hi.inv.kmemCacheAlloc_spec hlt hr with
    ⟨rfl, rfl, he⟩ | ⟨x, p, C, lists', objs', rfl, h1, h2, h3, h4⟩
  · simp only [hi.inv.obtainedPage_exhausted he, Option.toList_none, List.map_nil, List.nil_append]
    exact ⟨B, lists, objs, hi, .refl ..⟩
  · refine ⟨C, lists', objs', ⟨h1, ?_, fun j y hy => ?_, fun j q => ?_⟩, h4⟩
    · refine List.nodup_cons.mpr ⟨fun hm => h2 ?_, hi.nodup⟩
      obtain ⟨q, hq⟩ := hi.live i x hm
      exact .inl ⟨i, q, hq⟩
    · rcases List.mem_cons.mp hy with hy | hy
      · obtain ⟨rfl, rfl⟩ := Prod.mk.inj hy
        exact ⟨p, h3⟩
      · obtain ⟨q, hq⟩ := hi.live j y hy
        exact ⟨q, h4.objects j q y (by simp) hq⟩
    · rw [h4.onCache, ← hi.held]
      simp only [List.mem_append, List.mem_map, Option.mem_toList, Prod.mk.injEq]
      constructor
      · rintro (⟨a, ha, rfl, rfl⟩ | hq)
        exacts [.inr ⟨rfl, ha⟩, .inl hq]
      · rintro (hq | ⟨rfl, ha⟩)
        exacts [.inr hq, .inl ⟨q, ha, rfl, rfl⟩]

theorem free (hi : CacheInv t B lists objs) (h : objectStep t (.free i x) = some u) :
    ∃ lists' objs', CacheInv u B lists' objs' ∧
      LiveFrame t.sys u.sys B B lists lists' objs objs' i none {x} := by
  simp only [objectStep] at h
  split_ifs at h with hm
  obtain rfl := Option.some.inj h
  obtain ⟨p, hp⟩ := hi.live i x hm
  obtain ⟨lists', objs', h1, h2⟩ := hi.inv.kmemCacheFree_spec hp
  refine ⟨lists', objs', ⟨h1, hi.nodup.erase _, fun j y hy => ?_, fun j q => ?_⟩, h2⟩
  · obtain ⟨hne, hy⟩ := hi.nodup.mem_erase_iff.mp hy
    obtain ⟨q, hq⟩ := hi.live j y hy
    refine ⟨q, h2.objects j q y ?_ hq⟩
    -- two live objects at one address lie in one page, so they are of one cache
    rintro rfl
    obtain rfl := page_unique (hi.inv.page_lt hq.1) (hi.inv.page_lt hp.1)
      (hi.inv.object_page hq) (hi.inv.object_page hp)
    exact hne (by rw [hi.inv.cache_unique hq.1 hp.1])
  · rw [h2.onCache, ← hi.held]
    simp

end CacheInv

theorem initSlab_pages (s : SlabSys) : (initSlab s).buddy.pages = s.buddy.pages := by
  rw [initSlab]
  induction List.range kmemCacheNum generalizing s with
  | nil => rfl
  | cons i is ih => rw [List.foldl_cons, ih, initKmemCache]

theorem cacheStart_unmarked (boot : BootedMm) (pages : ℕ → Page) (links : PageLinks)
    (caches : ℕ → KmemCache) (slabs : ℕ → SlabHead) (objects : ObjectLinks) {p : ℕ}
    (hp : p < boot.pageNum) :
    ((cacheStart boot pages links caches slabs objects).sys.buddy.pages p).usedInfo ≠ buddySlab := by
  have hstart : (cacheStart boot pages links caches slabs objects).sys.buddy.pages =
      (initBuddy boot.toBootmmSys pages links).pages := initSlab_pages _
  have hzone : ((initZone boot.toBootmmSys pages links).pages p).usedInfo ≠ buddySlab := by
    have hpage : (initZone boot.toBootmmSys pages links).pages p = reservedPage (pages p) :=
      if_pos hp
    rw [hpage]
    exact (by decide : buddyReserved ≠ buddySlab)
  rw [hstart, initBuddy]
  generalize initZone boot.toBootmmSys pages links = s at hzone ⊢
  induction List.range s.pageNum generalizing s with
  | nil => exact hzone
  | cons i is ih =>
    rw [List.foldl_cons]
    refine ih _ fun h => ?_
    rcases freePages_page s (s.startPfn + i) p with hf | ⟨k, hf⟩
    · exact hzone (hf ▸ h)
    · rw [hf] at h
      exact absurd h (by decide : buddyFree ≠ buddySlab)

def isCachePage (s : SlabSys) (i p : ℕ) : Prop :=
  pgnIsInZone s.buddy p ∧ (s.buddy.pages p).usedInfo = buddySlab ∧
    (s.buddy.pages p).cachep = some i

structure PageSorted (s : SlabSys) (i p : ℕ) : Prop where
  capacity : 1 ≤ (s.caches i).capacity
  free : OnRing s.buddy.links (.slabFree i) p ↔ (s.slabs (pageVaddr p)).allocNum = 0
  partials : OnRing s.buddy.links (.slabPartial i) p ↔ 0 < (s.slabs (pageVaddr p)).allocNum ∧
    (s.slabs (pageVaddr p)).allocNum < (s.caches i).capacity
  full : OnRing s.buddy.links (.slabFull i) p ↔
    (s.slabs (pageVaddr p)).allocNum = (s.caches i).capacity
  lists : ∃ allocs frees : List ℕ,
    Ring s.objects (.inl (.allocList (pageVaddr p))) (allocs.map .inr) ∧
      Ring s.objects (.inl (.freeList (pageVaddr p))) (frees.map .inr) ∧
      (s.slabs (pageVaddr p)).allocNum = allocs.length ∧
      (s.slabs (pageVaddr p)).freeNum = frees.length
  le : (s.slabs (pageVaddr p)).allocNum + (s.slabs (pageVaddr p)).freeNum ≤ (s.caches i).capacity
  room : (s.slabs (pageVaddr p)).allocNum < (s.caches i).capacity →
    1 ≤ (s.slabs (pageVaddr p)).freeNum

theorem SlabInv.pageSorted {s : SlabSys} {B : Set Block} {lists : PageList → List ℕ}
    {objs : SlabList → List ℕ} {i p : ℕ} (hi : SlabInv s B lists objs) (hp : onCache lists i p) :
    PageSorted s i p := by
  have hlt := hi.cache_lt hp
  obtain ⟨hpart, hfull, hfree⟩ := mem_slabHeads hlt
  obtain ⟨hha, hhf⟩ := SlabInv.object_heads hp
  have hc := (hi.slab i p hp).carved
  have hcap : 1 ≤ (s.caches i).capacity := by
    rw [(hi.shape i hlt).capacity]
    exact (capacity_bounds hlt).1
  have hle := hc.le
  refine ⟨hcap, ?_, ?_, ?_, ⟨_, _, hi.rings.ring _ hha, hi.rings.ring _ hhf, hc.allocNum,
    hc.freeNum⟩, hle, fun hroom => ?_⟩
  · rw [hi.buddy.rings.onRing_iff hfree, hi.place_iff hp, slabPlace]
    split_ifs <;> simp <;> omega
  · rw [hi.buddy.rings.onRing_iff hpart, hi.place_iff hp, slabPlace]
    split_ifs <;> simp <;> omega
  · rw [hi.buddy.rings.onRing_iff hfull, hi.place_iff hp, slabPlace]
    split_ifs <;> simp <;> omega
  · rw [hc.freeNum]
    exact List.length_pos_of_ne_nil (hc.freeNum_pos hroom.ne)

theorem SlabInv.alloc_none {s : SlabSys} {B : Set Block} {lists : PageList → List ℕ}
    {objs : SlabList → List ℕ} {i : ℕ} (hi : SlabInv s B lists objs) (hlt : i < kmemCacheNum)
    {t : SlabSys} (h : kmemCacheAlloc s i = (t, none)) :
    (∀ p, onCache lists i p → (s.slabs (pageVaddr p)).freeNum = 0) ∧
      ∀ n, ¬ isFreePage s.buddy n := by
  rcases hi.kmemCacheAlloc_spec hlt h with ⟨-, -, he⟩ | ⟨x, _, _, _, _, hx, -⟩
  · refine ⟨fun p hp => ?_, ?_⟩
    · have hs := hi.pageSorted hp
      have hfull : p ∈ lists (.slabFull i) := by
        rcases hp with h | h | h
        · simp [he.partials] at h
        · exact h
        · simp [he.frees] at h
      rw [← hi.buddy.rings.onRing_iff (mem_slabHeads hlt).2.1, hs.full] at hfull
      have := hs.le
      omega
    · rintro n ⟨b, hb, -⟩
      rw [hi.buddy.isFreeBlock_iff, he.blocks] at hb
      exact hb
  · simp at hx

/-- Every page of the zone marked as a slab page is on a cache: a run that returns no page keeps it so. -/
def Marked (s : SlabSys) (lists : PageList → List ℕ) : Prop :=
  ∀ p, pgnIsInZone s.buddy p → (s.buddy.pages p).usedInfo = buddySlab → ∃ i, onCache lists i p

theorem LiveFrame.marked_of {s t : SlabSys} {B C : Set Block} {lists lists' : PageList → List ℕ}
    {objs objs' : SlabList → List ℕ} {i : ℕ} {joined : Option ℕ} {dead : Set ℕ}
    (hf : LiveFrame s t B C lists lists' objs objs' i joined dead) (hm : Marked s lists) :
    Marked t lists' := by
  intro p hz hu
  rw [pgnIsInZone, hf.zone.1, hf.zone.2] at hz
  rcases hf.marked p hu with hu | hj
  · obtain ⟨j, hj⟩ := hm p hz hu
    exact ⟨j, (hf.onCache j p).mpr (.inl hj)⟩
  · exact ⟨i, (hf.onCache i p).mpr (.inr ⟨rfl, hj⟩)⟩

theorem objectStep_inv {t u : CacheTrace} {op : ObjectOp} (hu : objectStep t op = some u)
    (h : ∃ B lists objs, CacheInv t B lists objs ∧ Marked t.sys lists) :
    ∃ B lists objs, CacheInv u B lists objs ∧ Marked u.sys lists := by
  obtain ⟨B, lists, objs, hi, hm⟩ := h
  cases op with
  | alloc i =>
    obtain ⟨C, lists', objs', h1, h2⟩ := hi.alloc hu
    exact ⟨C, lists', objs', h1, h2.marked_of hm⟩
  | free i x =>
    obtain ⟨lists', objs', h1, h2⟩ := hi.free hu
    exact ⟨B, lists', objs', h1, h2.marked_of hm⟩

theorem objectRun_inv {boot : BootedMm} {pages : ℕ → Page} {links : PageLinks}
    {caches : ℕ → KmemCache} {slabs : ℕ → SlabHead} {objects : ObjectLinks} {ops : List ObjectOp}
    {t : CacheTrace}
    (h : runOps objectStep (cacheStart boot pages links caches slabs objects) ops = some t) :
    ∃ B lists objs, CacheInv t B lists objs ∧ Marked t.sys lists := by
  refine runOps_invariant (fun s op u hs hu => objectStep_inv hu hs) ?_ h
  obtain ⟨B, lists, objs, hi⟩ := cacheStart_inv boot pages links caches slabs objects
  refine ⟨B, lists, objs, hi, fun p hp hu => ?_⟩
  have hlt : p < boot.pageNum :=
    hp.2.trans_le (slabStart_zone boot pages links caches slabs objects)
  exact absurd hu (cacheStart_unmarked boot pages links caches slabs objects hlt)

theorem objectRun_sorted {boot : BootedMm} {pages : ℕ → Page} {links : PageLinks}
    {caches : ℕ → KmemCache} {slabs : ℕ → SlabHead} {objects : ObjectLinks} {ops : List ObjectOp}
    {t : CacheTrace}
    (h : runOps objectStep (cacheStart boot pages links caches slabs objects) ops = some t)
    {i : ℕ} (hlt : i < kmemCacheNum) :
    (∀ p, isCachePage t.sys i p → PageSorted t.sys i p) ∧
      ((kmemCacheAlloc t.sys i).2 = none →
        (∀ p, isCachePage t.sys i p → (t.sys.slabs (pageVaddr p)).freeNum = 0) ∧
          ∀ n, ¬ isFreePage t.sys.buddy n) := by
  obtain ⟨B, lists, objs, hi, hm⟩ := objectRun_inv h
  have hon : ∀ p, isCachePage t.sys i p → onCache lists i p := by
    rintro p ⟨hz, hu, hc⟩
    obtain ⟨j, hj⟩ := hm p hz hu
    rw [(hi.inv.slab j p hj).page] at hc
    exact Option.some.inj hc ▸ hj
  refine ⟨fun p hp => hi.inv.pageSorted (hon p hp), fun hnone => ?_⟩
  obtain ⟨h1, h2⟩ := hi.inv.alloc_none hlt (Prod.mk.eta.symm.trans (congrArg (Prod.mk _) hnone))
  exact ⟨fun p hp => h1 p (hon p hp), h2⟩

def smallCache : CacheTrace :=
  cacheStart smallBoot blankPages blankLinks (fun _ => ⟨0, 0, 0, none⟩) (fun _ => ⟨0, 0⟩) ⟨id, id⟩

theorem smallObjects_isSome : (runOps objectStep smallCache
    [.alloc 11, .alloc 0, .alloc 11, .free 11 0x80010020]).isSome = true := by
  decide +kernel

def smallObjects : CacheTrace := Option.get _ smallObjects_isSome

theorem smallObjects_eq : runOps objectStep smallCache
    [.alloc 11, .alloc 0, .alloc 11, .free 11 0x80010020] = some smallObjects :=
  Option.some_get _ ▸ rfl

theorem objectRun_sorted_small : PageSorted smallObjects.sys 0 17 :=
  (objectRun_sorted smallObjects_eq (by decide)).1 17
    ⟨by decide +kernel, by decide +kernel, by decide +kernel⟩

def ReleaseRespected (t : CacheTrace) : Prop :=
  ∀ i < kmemCacheNum, ∀ x, (kmemCacheAlloc t.sys i).2 = some x →
    ∀ p, pgnIsInZone t.sys.buddy p → x ∈ pageMem p →
      (i, p) ∈ t.held ∨ obtainedPage t.sys i = some p

def KeepsCurrent (t : CacheTrace) : CacheOp → Prop
  | .object _ => True
  | .freePage i pgn =>
    (t.sys.slabs (pageVaddr pgn)).allocNum = 0 → (t.sys.caches i).cpuPage ≠ some pgn

instance (t : CacheTrace) : ∀ op, Decidable (KeepsCurrent t op)
  | .object _ => .isTrue trivial
  | .freePage _ _ => inferInstanceAs (Decidable (_ → _))

theorem allocObject_buddy (s : SlabSys) (b : BuddySys) (i slabp : ℕ) :
    (allocObject { s with buddy := b } i slabp).2 = (allocObject s i slabp).2 := by
  simp only [allocObject, allocNewObjectInPage]
  split_ifs <;> rfl

theorem SlabInv.current_object {s : SlabSys} {B : Set Block} {lists : PageList → List ℕ}
    {objs : SlabList → List ℕ} {i p : ℕ} (hi : SlabInv s B lists objs) (hp : onCache lists i p)
    (hfull : (s.slabs (pageVaddr p)).allocNum ≠ (s.caches i).capacity) :
    ∃ x, (allocObject s i (pageVaddr p)).2 = some x ∧ x ∈ pageMem p := by
  obtain ⟨x, lists', objs', h1, h2, -, h4, -⟩ := hi.kmemCacheAlloc_page hp hfull rfl
  refine ⟨x, ?_, h2.object_page h4⟩
  rw [← h1]
  split_ifs <;> rfl

/-- The page stays current when it is returned, so the next allocation takes its object from it. -/
theorem SlabInv.current_released {s : SlabSys} {B : Set Block} {lists : PageList → List ℕ}
    {objs : SlabList → List ℕ} {i p : ℕ} (hi : SlabInv s B lists objs) (hp : onCache lists i p)
    (hempty : (s.slabs (pageVaddr p)).allocNum = 0) (hcpu : (s.caches i).cpuPage = some p) :
    obtainedPage (kmemCacheFreePage s (pageVaddr p)) i = none ∧
      ∃ x, (kmemCacheAlloc (kmemCacheFreePage s (pageVaddr p)) i).2 = some x ∧ x ∈ pageMem p := by
  have hfull : (s.slabs (pageVaddr p)).allocNum ≠ (s.caches i).capacity := by
    have := (hi.pageSorted hp).capacity
    omega
  obtain ⟨b, hk, hv⟩ : ∃ b, kmemCacheFreePage s (pageVaddr p) = { s with buddy := b } ∧
      (b.pages p).virtual = pageVaddr p := by
    simp only [kmemCacheFreePage, hempty, ne_eq, not_true_eq_false, if_false,
      getPageBySlab_eq (hi.page_lt hp)]
    refine ⟨_, rfl, ?_⟩
    rcases freePages_page { s.buddy with links := listDel s.buddy.links (.inr p) } p p with
      h | ⟨k, h⟩ <;> rw [h, (hi.slab i p hp).page]
  have hcur : ((s.caches i).cpuPage.filter fun pgn =>
      !slabIsFull (s.caches i) (s.slabs (b.pages pgn).virtual)) = some p := by
    simp [hcpu, hv, slabIsFull, hfull]
  obtain ⟨x, hx, hmem⟩ := hi.current_object hp hfull
  rw [← allocObject_buddy s b] at hx
  rw [hk]
  refine ⟨by simp only [obtainedPage, hcur]; rfl, x, ?_, hmem⟩
  simp only [kmemCacheAlloc, kmemCachePage, hcur, hv]
  split_ifs <;> exact hx

namespace CacheInv

variable {t u : CacheTrace} {B : Set Block} {lists : PageList → List ℕ} {objs : SlabList → List ℕ}
  {i p : ℕ}

theorem respected (hi : CacheInv t B lists objs) : ReleaseRespected t := by
  intro i hlt x hx p hz hp
  obtain ⟨u, r, hr⟩ : ∃ u r, kmemCacheAlloc t.sys i = (u, r) := ⟨_, _, rfl⟩
  rw [hr] at hx
  dsimp only at hx
  subst hx
  rcases hi.inv.kmemCacheAlloc_spec hlt hr with ⟨h, -⟩ | ⟨y, q, C, lists', objs', h, h1, -, h3, h4⟩
  · simp at h
  · obtain rfl := Option.some.inj h
    obtain rfl := SlabInv.page_unique (hz.2.trans_le hi.inv.machine) (h1.page_lt h3.1) hp
      (h1.object_page h3)
    rw [hi.held]
    exact ((h4.onCache i p).mp h3.1).imp_right fun h => h.2

theorem freePage (hi : CacheInv t B lists objs) (hc : KeepsCurrent t (.freePage i p))
    (h : cacheStep t (.freePage i p) = some u) : ∃ C lists' objs', CacheInv u C lists' objs' := by
  simp only [cacheStep] at h
  split_ifs at h with hm hempty
  · obtain rfl := Option.some.inj h
    obtain ⟨C, lists', objs', h1, h2, h3⟩ :=
      hi.inv.kmemCacheFreePage_spec ((hi.held i p).mp hm) hempty (hc hempty)
    refine ⟨C, lists', objs', h1, hi.nodup, fun j x hx => ?_, fun j q => ?_⟩
    · obtain ⟨q, hq⟩ := hi.live j x hx
      exact ⟨q, h3 j q x hq⟩
    · have hcache : onCache lists j q → ((j, q) ≠ (i, p) ↔ q ≠ p) := by
        intro hq
        rw [ne_eq, Prod.mk.injEq, not_and]
        refine ⟨fun hne e => ?_, fun hne _ => hne⟩
        subst e
        exact hne (hi.inv.cache_unique hq ((hi.held i q).mp hm)) rfl
      rw [List.mem_filter, hi.held, h2, decide_eq_true_eq]
      exact and_congr_right hcache
  · obtain rfl := Option.some.inj h
    have hsame : kmemCacheFreePage t.sys (pageVaddr p) = t.sys := by
      rw [kmemCacheFreePage, if_pos hempty]
    rw [hsame]
    exact ⟨B, lists, objs, hi⟩

theorem not_respected (hi : CacheInv t B lists objs) {op : CacheOp} (hc : ¬ KeepsCurrent t op)
    (h : cacheStep t op = some u) : ¬ ReleaseRespected u := by
  cases op with
  | object op => exact absurd trivial hc
  | freePage i p =>
    simp only [KeepsCurrent, not_forall, not_not] at hc
    obtain ⟨hempty, hcpu⟩ := hc
    simp only [cacheStep, hempty, if_true] at h
    split_ifs at h with hm
    obtain rfl := Option.some.inj h
    have hp := (hi.held i p).mp hm
    obtain ⟨hnone, x, hx, hxp⟩ := hi.inv.current_released hp hempty hcpu
    have hz : pgnIsInZone (kmemCacheFreePage t.sys (pageVaddr p)).buddy p := by
      simp only [kmemCacheFreePage, hempty, ne_eq, not_true_eq_false, if_false, freePages_zone]
      exact hi.inv.buddy.tiling.mem_range (hi.inv.slab i p hp).block.1 (Block.head_mem _)
    intro hr
    rcases hr i (hi.inv.cache_lt hp) x hx p hz hxp with hh | hh
    · simp at hh
    · simp [hnone] at hh

end CacheInv

theorem cacheRun_released_iff {boot : BootedMm} {pages : ℕ → Page} {links : PageLinks}
    {caches : ℕ → KmemCache} {slabs : ℕ → SlabHead} {objects : ObjectLinks} {ops : List CacheOp}
    {t : CacheTrace}
    (h : runOps cacheStep (cacheStart boot pages links caches slabs objects) ops = some t) :
    (∀ k u, runOps cacheStep (cacheStart boot pages links caches slabs objects) (ops.take k) =
        some u → ReleaseRespected u) ↔
      RunMeets cacheStep KeepsCurrent (cacheStart boot pages links caches slabs objects) ops := by
  refine runAlways_iff (I := fun t => ∃ B lists objs, CacheInv t B lists objs) ?_ ?_ ?_
    (cacheStart_inv boot pages links caches slabs objects) h
  · rintro t ⟨B, lists, objs, hi⟩
    exact hi.respected
  · rintro t op u ⟨B, lists, objs, hi⟩ hc hu
    cases op with
    | object op =>
      cases op with
      | alloc i =>
        obtain ⟨C, lists', objs', h1, -⟩ := hi.alloc hu
        exact ⟨C, lists', objs', h1⟩
      | free i x =>
        obtain ⟨lists', objs', h1, -⟩ := hi.free hu
        exact ⟨B, lists', objs', h1⟩
    | freePage i p => exact hi.freePage hc hu
  · rintro t op u ⟨B, lists, objs, hi⟩ hc hu
    exact hi.not_respected hc hu

def returnOps : List CacheOp :=
  [.object (.alloc 11), .object (.alloc 11), .object (.free 11 0x80010020), .freePage 11 16,
    .object (.alloc 11)]

theorem returnRun_isSome : (runOps cacheStep smallCache returnOps).isSome = true := by
  decide +kernel

def returnRun : CacheTrace := Option.get _ returnRun_isSome

theorem returnRun_eq : runOps cacheStep smallCache returnOps = some returnRun :=
  Option.some_get _ ▸ rfl

theorem cacheRun_released_small : ReleaseRespected returnRun := by
  have hmeets : RunMeets cacheStep KeepsCurrent smallCache returnOps := by
    decide +kernel
  exact (cacheRun_released_iff returnRun_eq).mpr hmeets returnOps.length returnRun returnRun_eq

/-- Page 16 is the current page of cache 0 when it is returned. -/
theorem releaseRun_isSome : (runOps cacheStep smallCache
    [.object (.alloc 0), .object (.free 0 0x80010020), .freePage 0 16]).isSome = true := by
  decide +kernel

def releaseRun : CacheTrace := Option.get _ releaseRun_isSome

theorem releaseRun_eq : runOps cacheStep smallCache
    [.object (.alloc 0), .object (.free 0 0x80010020), .freePage 0 16] = some releaseRun :=
  Option.some_get _ ▸ rfl

theorem releaseRun_stale :
    runOps cacheStep smallCache
        [.object (.alloc 0), .object (.free 0 0x80010020), .freePage 0 16] = some releaseRun ∧
      releaseRun.held = [] ∧ isFreePage releaseRun.sys.buddy 16 ∧
      obtainedPage releaseRun.sys 0 = none ∧
      (kmemCacheAlloc releaseRun.sys 0).2 = some 0x80010020 ∧ 0x80010020 ∈ pageMem 16 := by
  refine ⟨releaseRun_eq, by decide +kernel, ?_, by decide +kernel, by decide +kernel, ?_⟩
  · exact ⟨⟨16, 4⟩, ⟨by decide, [16], by decide +kernel, by decide⟩, by decide, by decide⟩
  · exact ⟨by decide +kernel, by decide +kernel⟩

end OurOS
