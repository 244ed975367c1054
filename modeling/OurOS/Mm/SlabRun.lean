import Mathlib.Data.Set.BooleanAlgebra
import Mathlib.Order.CompletePartialOrder
import Mathlib.Order.Interval.Set.Basic
import OurOS.Mm.BuddyRun
import OurOS.Mm.SlabStep

set_option linter.style.nameCheck false

namespace OurOS

open AlignedBlocks Links

inductive SlabOp where
  | kmalloc (size : ℕ)
  | kfree (objp : ℕ)
deriving DecidableEq, Repr

structure SlabTrace where
  sys : SlabSys
  live : List ℕ

def slabStep (t : SlabTrace) : SlabOp → Option SlabTrace
  | .kmalloc size =>
    let r := kmalloc t.sys size
    some ⟨r.1, r.2.toList ++ t.live⟩
  | .kfree objp => if objp ∈ t.live then some ⟨kfree t.sys objp, t.live.erase objp⟩ else none

def slabStart (boot : BootedMm) (pages : ℕ → Page) (links : PageLinks) (caches : ℕ → KmemCache)
    (slabs : ℕ → SlabHead) (objects : ObjectLinks) : SlabTrace :=
  ⟨initSlab ⟨initBuddy boot.toBootmmSys pages links, caches, slabs, objects⟩, []⟩

def slabHeadsUpTo (n : ℕ) : Set PageList :=
  {h | (∃ k ≤ maxBuddyOrder, h = .freelist k) ∨
    ∃ i < n, h = .slabPartial i ∨ h = .slabFull i ∨ h = .slabFree i}

theorem slabHeadsUpTo_succ (n : ℕ) : slabHeadsUpTo (n + 1) =
    insert (.slabPartial n) (insert (.slabFull n) (insert (.slabFree n) (slabHeadsUpTo n))) := by
  ext h
  simp only [slabHeadsUpTo, Set.mem_insert_iff, Set.mem_ofPred_eq]
  constructor
  · rintro (hk | ⟨i, hi, hh⟩)
    · exact .inr (.inr (.inr (.inl hk)))
    · rcases Nat.lt_succ_iff_lt_or_eq.mp hi with hlt | rfl
      · exact .inr (.inr (.inr (.inr ⟨i, hlt, hh⟩)))
      · rcases hh with rfl | rfl | rfl
        exacts [.inl rfl, .inr (.inl rfl), .inr (.inr (.inl rfl))]
  · rintro (rfl | rfl | rfl | hk | ⟨i, hi, hh⟩)
    · exact .inr ⟨n, Nat.lt_succ_self n, .inl rfl⟩
    · exact .inr ⟨n, Nat.lt_succ_self n, .inr (.inl rfl)⟩
    · exact .inr ⟨n, Nat.lt_succ_self n, .inr (.inr rfl)⟩
    · exact .inl hk
    · exact .inr ⟨i, Nat.lt_succ_of_lt hi, hh⟩

theorem kmemCacheSize_aligned {i : ℕ} (hi : i < kmemCacheNum) :
    upperAlign (kmemCacheSize i) slabAlign = kmemCacheSize i ∧
      upperAlign (kmemCacheSize i + listHeadBytes) slabAlign = kmemCacheSize i + listHeadBytes := by
  revert i
  decide +kernel

structure CachesReady (s t : SlabSys) (n : ℕ) (B : Set Block) (lists : PageList → List ℕ) :
    Prop where
  buddy : BuddyInv (slabHeadsUpTo n) t.buddy B ∅ lists
  shape : ∀ i < n, CacheShape (t.caches i) i ∧ (t.caches i).cpuPage = none
  zone : t.buddy.startPfn = s.buddy.startPfn ∧ t.buddy.pageNum = s.buddy.pageNum

theorem initSlab_steps {s : SlabSys} {B : Set Block} {lists : PageList → List ℕ}
    (hi : BuddyInv buddyHeads s.buddy B ∅ lists)
    (hl : ∀ h, (∀ k, h ≠ .freelist k) → lists h = []) (n : ℕ) (hn : n ≤ kmemCacheNum) :
    CachesReady s ((List.range n).foldl (fun s i => initKmemCache s i (kmemCacheSize i)) s) n B
      lists := by
  induction n with
  | zero =>
    have hheads : slabHeadsUpTo 0 = buddyHeads := by
      simp [slabHeadsUpTo, buddyHeads]
    exact ⟨hheads ▸ hi, fun i hi => absurd hi (Nat.not_lt_zero i), rfl, rfl⟩
  | succ n ih =>
    have ih := ih (by omega)
    rw [List.range_succ, List.foldl_append, List.foldl_cons, List.foldl_nil]
    set t := (List.range n).foldl (fun s i => initKmemCache s i (kmemCacheSize i)) s
    obtain ⟨h1, h2⟩ := kmemCacheSize_aligned (i := n) (by omega)
    refine ⟨?_, fun i hlt => ?_, ih.zone⟩
    · have hr := ((ih.buddy.rings.reset_head (hl (.slabFree n) (by simp))).reset_head
        (hl (.slabFull n) (by simp))).reset_head (hl (.slabPartial n) (by simp))
      rw [← slabHeadsUpTo_succ] at hr
      exact ih.buddy.relink hr (fun k hk => .inl ⟨k, hk, rfl⟩) (fun _ _ => Iff.rfl) ih.buddy.listed
    · rcases Nat.lt_succ_iff_lt_or_eq.mp hlt with hlt | rfl
      · have hs := ih.shape i hlt
        simpa only [initKmemCache, Function.update_of_ne hlt.ne] using hs
      · simp only [initKmemCache, Function.update_self, h1, h2]
        exact ⟨⟨rfl, rfl, rfl⟩, trivial⟩

structure SlabTraceInv (t : SlabTrace) (B : Set Block) (lists : PageList → List ℕ)
    (objs : SlabList → List ℕ) : Prop where
  inv : SlabInv t.sys B lists objs
  nodup : t.live.Nodup
  live : ∀ x ∈ t.live, isLive t.sys B lists objs x

theorem slabStart_ready (boot : BootedMm) (pages : ℕ → Page) (links : PageLinks)
    (caches : ℕ → KmemCache) (slabs : ℕ → SlabHead) (objects : ObjectLinks) :
    ∃ B lists, TraceInv (initZone boot.toBootmmSys pages links) (buddyStart boot pages links)
        B lists ∧
      CachesReady ⟨initBuddy boot.toBootmmSys pages links, caches, slabs, objects⟩
        (slabStart boot pages links caches slabs objects).sys kmemCacheNum B lists := by
  obtain ⟨B, lists, hb⟩ := buddyStart_inv boot pages links
  exact ⟨B, lists, hb, initSlab_steps hb.inv hb.lists kmemCacheNum le_rfl⟩

theorem slabStart_zone (boot : BootedMm) (pages : ℕ → Page) (links : PageLinks)
    (caches : ℕ → KmemCache) (slabs : ℕ → SlabHead) (objects : ObjectLinks) :
    (slabStart boot pages links caches slabs objects).sys.buddy.startPfn +
      (slabStart boot pages links caches slabs objects).sys.buddy.pageNum ≤ boot.pageNum := by
  obtain ⟨B, lists, hb, hr⟩ := slabStart_ready boot pages links caches slabs objects
  obtain ⟨-, -, hz⟩ := initZone_bounds boot pages links
  rw [hr.zone.1, hr.zone.2]
  exact le_trans (le_of_eq (congrArg₂ (· + ·) hb.zone.1 hb.zone.2)) hz

theorem slabStart_inv (boot : BootedMm) (pages : ℕ → Page) (links : PageLinks)
    (caches : ℕ → KmemCache) (slabs : ℕ → SlabHead) (objects : ObjectLinks) :
    ∃ B lists objs,
      SlabTraceInv (slabStart boot pages links caches slabs objects) B lists objs ∧
        ∀ i p, ¬ onCache lists i p := by
  obtain ⟨B, lists, hb, hr⟩ := slabStart_ready boot pages links caches slabs objects
  have hnone : ∀ i p, ¬ onCache lists i p := by
    intro i p
    simp [onCache, hb.lists]
  have hmach := (slabStart_zone boot pages links caches slabs objects).trans boot.pageNum_le
  have hheads : objectHeads lists = ∅ := by
    simp [objectHeads, hnone]
  refine ⟨B, lists, fun _ => [], ⟨⟨hr.buddy, hmach, fun i hi => (hr.shape i hi).1,
    hheads ▸ Rings.none _, fun i p hp => absurd hp (hnone i p),
    fun i p hp => absurd hp (hnone i p), fun i hi p hp => ?_⟩, List.nodup_nil, ?_⟩, hnone⟩
  · rw [(hr.shape i hi).2] at hp
    simp at hp
  · simp [slabStart]

theorem slabStep_survive {t u : SlabTrace} {op : SlabOp} {B : Set Block}
    {lists : PageList → List ℕ} {objs : SlabList → List ℕ} (hi : SlabTraceInv t B lists objs)
    (hu : slabStep t op = some u) : ∃ C lists' objs', SlabTraceInv u C lists' objs' ∧
      Survive t.sys u.sys B C lists lists' objs objs' {x | x ∈ t.live ∧ x ∉ u.live} ∧
        ∀ x ∈ u.live, x ∈ t.live ∨ ¬ isLive t.sys B lists objs x := by
  cases op with
  | kmalloc size =>
    obtain rfl := Option.some.inj hu
    obtain ⟨C, lists', objs', h1, h2, h3⟩ := hi.inv.kmalloc_spec (Prod.ext rfl rfl)
    refine ⟨C, lists', objs', ⟨h1, ?_, fun x hx => ?_⟩, h2.mono (Set.empty_subset _), fun x hx => ?_⟩
    · cases hr : (kmalloc t.sys size).2 with
      | none => exact hi.nodup
      | some objp => exact List.nodup_cons.mpr ⟨fun hm => (h3 objp hr).1 (hi.live objp hm), hi.nodup⟩
    · rcases List.mem_append.mp hx with hx | hx
      · exact (h3 x (Option.mem_toList.mp hx)).2
      · exact h2.isLive (hi.live x hx) (Set.notMem_empty x)
    · rcases List.mem_append.mp hx with hx | hx
      · exact .inr (h3 x (Option.mem_toList.mp hx)).1
      · exact .inl hx
  | kfree objp =>
    simp only [slabStep] at hu
    by_cases hm : objp ∈ t.live
    · rw [if_pos hm] at hu
      obtain rfl := Option.some.inj hu
      obtain ⟨C, lists', objs', h1, h2⟩ := hi.inv.kfree_spec (hi.live objp hm)
      refine ⟨C, lists', objs', ⟨h1, hi.nodup.erase _, fun x hx => ?_⟩,
        h2.mono (Set.singleton_subset_iff.mpr ⟨hm, hi.nodup.not_mem_erase⟩), fun x hx => .inl (List.mem_of_mem_erase hx)⟩
      obtain ⟨hne, hx⟩ := hi.nodup.mem_erase_iff.mp hx
      exact h2.isLive (hi.live x hx) hne
    · simp [hm] at hu

theorem slabStep_inv {t u : SlabTrace} {op : SlabOp}
    (h : ∃ B lists objs, SlabTraceInv t B lists objs) (hu : slabStep t op = some u) :
    ∃ B lists objs, SlabTraceInv u B lists objs := by
  obtain ⟨B, lists, objs, hi⟩ := h
  obtain ⟨C, lists', objs', h1, -⟩ := slabStep_survive hi hu
  exact ⟨C, lists', objs', h1⟩

theorem slabRun_inv {boot : BootedMm} {pages : ℕ → Page} {links : PageLinks}
    {caches : ℕ → KmemCache} {slabs : ℕ → SlabHead} {objects : ObjectLinks} {ops : List SlabOp}
    {t : SlabTrace}
    (h : runOps slabStep (slabStart boot pages links caches slabs objects) ops = some t) :
    ∃ B lists objs, SlabTraceInv t B lists objs := by
  obtain ⟨B, lists, objs, hi, -⟩ := slabStart_inv boot pages links caches slabs objects
  exact runOps_invariant (fun _ _ _ => slabStep_inv) ⟨B, lists, objs, hi⟩ h

def allocLength (s : SlabSys) (objp : ℕ) : ℕ :=
  let page := s.buddy.pages (getPageBySlab (lowerAlign objp pageSize))
  if page.usedInfo = buddySlab then
    match page.cachep with
    | some i => (s.caches i).objectSize
    | none => 0
  else 2 ^ page.bplevel * pageSize

def memOf (s : SlabSys) (objp : ℕ) : Set ℕ := Set.Ico objp (objp + allocLength s objp)

def pageMem (pgn : ℕ) : Set ℕ := Set.Ico (pageVaddr pgn) (pageVaddr pgn + pageSize)

def isSlabPage (s : SlabSys) (i pgn : ℕ) : Prop :=
  i < kmemCacheNum ∧ (OnRing s.buddy.links (.slabPartial i) pgn ∨
    OnRing s.buddy.links (.slabFull i) pgn ∨ OnRing s.buddy.links (.slabFree i) pgn)

def slabHeadMem (pgn : ℕ) : Set ℕ := Set.Ico (pageVaddr pgn) (pageVaddr pgn + slabHeadBytes)

def isObjectNode (s : SlabSys) (pgn node : ℕ) : Prop :=
  OnRing s.objects (.allocList (pageVaddr pgn)) node ∨
    OnRing s.objects (.freeList (pageVaddr pgn)) node

def nodeMem (node : ℕ) : Set ℕ := Set.Ico node (node + listHeadBytes)

namespace SlabInv

variable {s : SlabSys} {B : Set Block} {lists : PageList → List ℕ} {objs : SlabList → List ℕ}
  {i j p q x y : ℕ}

theorem isSlabPage_iff (hi : SlabInv s B lists objs) : isSlabPage s i p ↔ onCache lists i p := by
  unfold isSlabPage onCache
  constructor
  · rintro ⟨hlt, h⟩
    obtain ⟨h1, h2, h3⟩ := mem_slabHeads hlt
    rwa [hi.buddy.rings.onRing_iff h1, hi.buddy.rings.onRing_iff h2,
      hi.buddy.rings.onRing_iff h3] at h
  · intro h
    have hlt := hi.cache_lt h
    obtain ⟨h1, h2, h3⟩ := mem_slabHeads hlt
    rw [hi.buddy.rings.onRing_iff h1, hi.buddy.rings.onRing_iff h2, hi.buddy.rings.onRing_iff h3]
    exact ⟨hlt, h⟩

theorem isObjectNode_iff (hi : SlabInv s B lists objs) (hp : onCache lists i p) :
    isObjectNode s p x ↔
      x ∈ objs (.allocList (pageVaddr p)) ∨ x ∈ objs (.freeList (pageVaddr p)) := by
  obtain ⟨h1, h2⟩ := object_heads hp
  rw [isObjectNode, hi.rings.onRing_iff h1, hi.rings.onRing_iff h2]

theorem object_length (hi : SlabInv s B lists objs) (hx : liveObject lists objs i p x) :
    allocLength s x = kmemCacheSize i := by
  obtain ⟨-, hpg⟩ := hi.object_addr hx
  simp only [allocLength, hpg, (hi.slab i p hx.1).page, if_true,
    (hi.shape i (hi.cache_lt hx.1)).objectSize]

theorem object_mem (hi : SlabInv s B lists objs) (hx : liveObject lists objs i p x) :
    memOf s x = Set.Ico x (x + kmemCacheSize i) := by
  rw [memOf, hi.object_length hx]

theorem object_bounds (hi : SlabInv s B lists objs) (hx : liveObject lists objs i p x)
    (hy : y ∈ memOf s x) :
    pageVaddr p + slabHeadBytes ≤ y ∧ y < pageVaddr p + pageSize := by
  have hr := hi.node_range hx.1 (.inl hx.2)
  rw [hi.object_mem hx, Set.mem_Ico] at hy
  omega

theorem block_length (hi : SlabInv s B lists objs) {b : Block} (hx : liveBlock s B b x) :
    allocLength s x = 2 ^ b.level * pageSize := by
  obtain ⟨hb, hu, hx⟩ := hx
  obtain ⟨hpg, -, -⟩ := block_addr (hi.block_lt hb) hx
  have hlev := hi.buddy.level b hb.1 (by simp)
  simp only [allocLength, hpg, hu, (by decide : buddyAlloced ≠ buddySlab), if_false, hlev]

theorem block_mem (hi : SlabInv s B lists objs) {b : Block} (hx : liveBlock s B b x) :
    memOf s x = Set.Ico x (x + 2 ^ b.level * pageSize) := by
  rw [memOf, hi.block_length hx]

inductive LivesIn (s : SlabSys) (B : Set Block) (lists : PageList → List ℕ)
    (objs : SlabList → List ℕ) (x : ℕ) : Block → Prop where
  | object {i p : ℕ} (h : liveObject lists objs i p x) : LivesIn s B lists objs x ⟨p, 0⟩
  | block {b : Block} (h : liveBlock s B b x) : LivesIn s B lists objs x b

theorem livesIn (hx : isLive s B lists objs x) : ∃ b, LivesIn s B lists objs x b := by
  rcases hx with ⟨i, p, h⟩ | ⟨b, h⟩
  exacts [⟨_, .object h⟩, ⟨b, .block h⟩]

theorem livesIn_alloc (hi : SlabInv s B lists objs) {b : Block}
    (h : LivesIn s B lists objs x b) : b ∈ allocBlocks s.buddy B := by
  cases h with
  | object h => exact (hi.slab _ _ h.1).block
  | block h => exact h.1

theorem livesIn_page (hi : SlabInv s B lists objs) {b : Block} (h : LivesIn s B lists objs x b)
    (hy : y ∈ memOf s x) : ∃ n ∈ b, n < machinePageNum ∧ y ∈ pageMem n := by
  cases h with
  | @object i p h =>
    have hr := hi.object_bounds h hy
    exact ⟨p, Block.head_mem _, hi.page_lt h.1, by omega, hr.2⟩
  | block h =>
    have hin := hi.buddy.tiling.inside b h.1.1
    have hm := hi.machine
    rw [hi.block_mem h, h.2.2, Set.mem_Ico, pageVaddr_eq (hi.block_lt h.1)] at hy
    simp only [pageSize] at hy
    obtain ⟨d, rfl⟩ := Nat.exists_eq_add_of_le (show 2147483648 ≤ y by omega)
    have hdiv := Nat.div_add_mod' d 4096
    have hmod := Nat.mod_lt d (show 0 < 4096 by decide)
    generalize d / 4096 = n at hdiv
    have hn : b.head ≤ n ∧ n < b.head + 2 ^ b.level := by
      constructor
      · omega
      · by_contra hge
        have := Nat.mul_le_mul_right 4096 (Nat.not_lt.mp hge)
        rw [Nat.add_mul] at this
        omega
    have hlt : n < machinePageNum := by omega
    refine ⟨n, hn, hlt, ?_⟩
    rw [pageMem, Set.mem_Ico, pageVaddr_eq hlt]
    have hps : pageSize = 4096 := rfl
    clear hy hin hm
    omega

theorem page_unique (hp : p < machinePageNum) (hq : q < machinePageNum) (h1 : y ∈ pageMem p)
    (h2 : y ∈ pageMem q) : p = q := vaddr_inj hp hq h1 h2

theorem livesIn_unique (hi : SlabInv s B lists objs) {b c : Block}
    (hb : LivesIn s B lists objs p b) (hc : LivesIn s B lists objs q c)
    (h1 : y ∈ memOf s p) (h2 : y ∈ memOf s q) : b = c := by
  obtain ⟨n, hn, hlt, hy⟩ := hi.livesIn_page hb h1
  obtain ⟨m, hm, hlt', hy'⟩ := hi.livesIn_page hc h2
  obtain rfl := page_unique hlt hlt' hy hy'
  exact hi.buddy.tiling.unique b (hi.livesIn_alloc hb).1 c (hi.livesIn_alloc hc).1 n hn hm

theorem object_node_disjoint (hi : SlabInv s B lists objs) (hx : liveObject lists objs i p x)
    {node : ℕ}
    (hn : node ∈ objs (.allocList (pageVaddr p)) ∨ node ∈ objs (.freeList (pageVaddr p))) :
    x + kmemCacheSize i = node ∨ node + listHeadBytes ≤ x ∨
      x + kmemCacheSize i + listHeadBytes + kmemCacheSize i ≤ node := by
  have hc := (hi.slab i p hx.1).carved
  have hsize := (hi.shape i (hi.cache_lt hx.1)).size
  obtain ⟨k, -, -, hk⟩ := (hc.nodes _).mp (.inl hx.2)
  obtain ⟨l, -, -, rfl⟩ := (hc.nodes _).mp hn
  rw [hsize] at hk ⊢
  rcases lt_trichotomy k l with h | rfl | h
  · have := Nat.mul_le_mul_right (kmemCacheSize i + listHeadBytes) (Nat.succ_le_of_lt h)
    rw [Nat.succ_mul] at this
    omega
  · exact .inl hk
  · have := Nat.mul_le_mul_right (kmemCacheSize i + listHeadBytes) (Nat.succ_le_of_lt h)
    rw [Nat.succ_mul] at this
    omega

theorem live_disjoint (hi : SlabInv s B lists objs) (hp : isLive s B lists objs p)
    (hq : isLive s B lists objs q) (hne : p ≠ q) : Disjoint (memOf s p) (memOf s q) := by
  rw [Set.disjoint_left]
  intro y h1 h2
  obtain ⟨b, hb⟩ := livesIn hp
  obtain ⟨c, hc⟩ := livesIn hq
  obtain rfl := hi.livesIn_unique hb hc h1 h2
  cases hb with
  | @object i n h =>
    generalize hbn : (⟨n, 0⟩ : Block) = b at hc
    cases hc with
    | @object j m h' =>
      obtain rfl : n = m := congrArg Block.head hbn
      obtain rfl := hi.cache_unique h.1 h'.1
      have hd := hi.object_node_disjoint h (.inl h'.2)
      rw [hi.object_mem h, Set.mem_Ico] at h1
      rw [hi.object_mem h', Set.mem_Ico] at h2
      omega
    | block h' =>
      have hu := h'.2.1
      rw [← hbn, (hi.slab i n h.1).page] at hu
      exact absurd hu (by exact (by decide : buddySlab ≠ buddyAlloced))
  | block h =>
    cases hc with
    | @object j m h' =>
      have hu := h.2.1
      rw [(hi.slab j m h'.1).page] at hu
      exact absurd hu (by exact (by decide : buddySlab ≠ buddyAlloced))
    | block h' => exact hne (h.2.2.trans h'.2.2.symm)

theorem live_pos (hi : SlabInv s B lists objs) (hp : isLive s B lists objs p) :
    0 < allocLength s p := by
  have hne : p ∈ memOf s p := by
    rcases hp with ⟨i, n, h⟩ | ⟨b, h⟩
    · rw [hi.object_mem h]
      have := (capacity_bounds (hi.cache_lt h.1)).2.2
      exact ⟨le_rfl, by omega⟩
    · rw [hi.block_mem h]
      have := Nat.two_pow_pos b.level
      exact ⟨le_rfl, by simp only [pageSize]; omega⟩
  rw [memOf, Set.mem_Ico] at hne
  omega

theorem live_zone (hi : SlabInv s B lists objs) (hp : isLive s B lists objs p)
    (hy : y ∈ memOf s p) : ∃ n, pgnIsInZone s.buddy n ∧ y ∈ pageMem n := by
  obtain ⟨b, hb⟩ := livesIn hp
  obtain ⟨n, hn, -, hy⟩ := hi.livesIn_page hb hy
  exact ⟨n, hi.buddy.tiling.mem_range (hi.livesIn_alloc hb).1 hn, hy⟩

theorem live_page (hi : SlabInv s B lists objs) (hp : isLive s B lists objs p) :
    (∃ i pgn, isSlabPage s i pgn ∧ memOf s p ⊆ pageMem pgn ∧
      memOf s p = Set.Ico p (p + kmemCacheSize i)) ∨
    ∃ b : Block, (s.buddy.pages b.head).usedInfo = buddyAlloced ∧ p = pageVaddr b.head ∧
      memOf s p = Set.Ico p (p + 2 ^ b.level * pageSize) := by
  rcases hp with ⟨i, n, h⟩ | ⟨b, h⟩
  · refine .inl ⟨i, n, hi.isSlabPage_iff.mpr h.1, fun y hy => ?_, hi.object_mem h⟩
    have hr := hi.object_bounds h hy
    exact ⟨by omega, hr.2⟩
  · exact .inr ⟨b, h.2.1, h.2.2, hi.block_mem h⟩

theorem live_slab (hi : SlabInv s B lists objs) (hp : isLive s B lists objs p)
    (hq : onCache lists j q) (h1 : y ∈ memOf s p) (h2 : y ∈ pageMem q) :
    liveObject lists objs j q p := by
  obtain ⟨b, hb⟩ := livesIn hp
  obtain ⟨n, hn, hlt, hy⟩ := hi.livesIn_page hb h1
  obtain rfl := page_unique hlt (hi.page_lt hq) hy h2
  have hs := hi.slab j n hq
  have he := hi.buddy.tiling.unique b (hi.livesIn_alloc hb).1 _ hs.block.1 n hn (Block.head_mem _)
  cases hb with
  | @object i m h =>
    obtain rfl : m = n := congrArg Block.head he
    obtain rfl := hi.cache_unique h.1 hq
    exact h
  | block h =>
    have hu := h.2.1
    rw [he, hs.page] at hu
    exact absurd hu (by exact (by decide : buddySlab ≠ buddyAlloced))

theorem live_slabHead (hi : SlabInv s B lists objs) (hp : isLive s B lists objs p)
    (hq : isSlabPage s j q) : Disjoint (memOf s p) (slabHeadMem q) := by
  rw [hi.isSlabPage_iff] at hq
  rw [Set.disjoint_left]
  rintro y h1 ⟨h2, h3⟩
  have hb := hi.object_bounds (hi.live_slab hp hq h1
    ⟨h2, by simp only [slabHeadBytes, pageSize] at h3 ⊢; omega⟩) h1
  omega

theorem live_node (hi : SlabInv s B lists objs) (hp : isLive s B lists objs p)
    (hq : isSlabPage s j q) {node : ℕ} (hn : isObjectNode s q node) :
    Disjoint (memOf s p) (nodeMem node) := by
  rw [hi.isSlabPage_iff] at hq
  rw [hi.isObjectNode_iff hq] at hn
  have hr := hi.node_range hq hn
  rw [Set.disjoint_left]
  rintro y h1 ⟨h2, h3⟩
  have hl := hi.live_slab hp hq h1 ⟨by omega, by omega⟩
  have hd := hi.object_node_disjoint hl hn
  rw [hi.object_mem hl, Set.mem_Ico] at h1
  omega

theorem live_free (hi : SlabInv s B lists objs) (hp : isLive s B lists objs p)
    (hq : isFreePage s.buddy q) : Disjoint (memOf s p) (pageMem q) := by
  obtain ⟨c, hc, hqc⟩ := hq
  rw [hi.buddy.isFreeBlock_iff] at hc
  rw [Set.disjoint_left]
  intro y h1 h2
  obtain ⟨b, hb⟩ := livesIn hp
  obtain ⟨n, hn, hlt, hy⟩ := hi.livesIn_page hb h1
  have hq := (hi.buddy.tiling.mem_range hc.1 hqc).2.trans_le hi.machine
  obtain rfl := page_unique hlt hq hy h2
  have hbA := hi.livesIn_alloc hb
  have he := hi.buddy.tiling.unique b hbA.1 c hc.1 n hn hqc
  exact hbA.2 (he ▸ hc.2)

end SlabInv

theorem slabRun_disjoint {boot : BootedMm} {pages : ℕ → Page} {links : PageLinks}
    {caches : ℕ → KmemCache} {slabs : ℕ → SlabHead} {objects : ObjectLinks} {ops : List SlabOp}
    {t : SlabTrace}
    (h : runOps slabStep (slabStart boot pages links caches slabs objects) ops = some t) :
    t.live.Nodup ∧
      (∀ p ∈ t.live, ∀ q ∈ t.live, p ≠ q → Disjoint (memOf t.sys p) (memOf t.sys q)) ∧
      (∀ p ∈ t.live, 0 < allocLength t.sys p ∧
        ∀ x ∈ memOf t.sys p, ∃ n, pgnIsInZone t.sys.buddy n ∧ x ∈ pageMem n) ∧
      (∀ p ∈ t.live,
        (∃ i pgn, isSlabPage t.sys i pgn ∧ memOf t.sys p ⊆ pageMem pgn ∧
          memOf t.sys p = Set.Ico p (p + kmemCacheSize i)) ∨
        ∃ b : Block, (t.sys.buddy.pages b.head).usedInfo = buddyAlloced ∧ p = pageVaddr b.head ∧
          memOf t.sys p = Set.Ico p (p + 2 ^ b.level * pageSize)) ∧
      (∀ p ∈ t.live, ∀ i pgn, isSlabPage t.sys i pgn →
        Disjoint (memOf t.sys p) (slabHeadMem pgn) ∧
        ∀ node, isObjectNode t.sys pgn node → Disjoint (memOf t.sys p) (nodeMem node)) ∧
      (∀ p ∈ t.live, ∀ n, isFreePage t.sys.buddy n →
        Disjoint (memOf t.sys p) (pageMem n)) := by
  obtain ⟨B, lists, objs, hi⟩ := slabRun_inv h
  refine ⟨hi.nodup, fun p hp q hq => hi.inv.live_disjoint (hi.live p hp) (hi.live q hq),
    fun p hp => ⟨hi.inv.live_pos (hi.live p hp), fun x => hi.inv.live_zone (hi.live p hp)⟩,
    fun p hp => hi.inv.live_page (hi.live p hp), fun p hp i pgn hpg => ?_,
    fun p hp n => hi.inv.live_free (hi.live p hp)⟩
  exact ⟨hi.inv.live_slabHead (hi.live p hp) hpg, fun node => hi.inv.live_node (hi.live p hp) hpg⟩

def smallSlab : SlabTrace :=
  slabStart smallBoot blankPages blankLinks (fun _ => ⟨0, 0, 0, none⟩) (fun _ => ⟨0, 0⟩) ⟨id, id⟩

theorem smallSlabRun_isSome : (runOps slabStep smallSlab
    [.kmalloc 100, .kmalloc 5000, .kmalloc 100, .kfree 0x80010020]).isSome = true := by
  decide +kernel

def smallSlabRun : SlabTrace := Option.get _ smallSlabRun_isSome

theorem smallSlabRun_eq : runOps slabStep smallSlab
    [.kmalloc 100, .kmalloc 5000, .kmalloc 100, .kfree 0x80010020] = some smallSlabRun :=
  Option.some_get _ ▸ rfl

theorem smallSlabRun_live : smallSlabRun.live = [0x800100a8, 0x80012000] := by
  decide +kernel

theorem slabRun_disjoint_small :
    Disjoint (memOf smallSlabRun.sys 0x800100a8) (memOf smallSlabRun.sys 0x80012000) := by
  obtain ⟨-, h, -⟩ := slabRun_disjoint smallSlabRun_eq
  rw [smallSlabRun_live] at h
  exact h _ (by simp) _ (by simp) (by decide)

end OurOS
