import OurOS.Mm.BuddyInv
import OurOS.Mm.Slab

set_option linter.style.nameCheck false

namespace OurOS

open AlignedBlocks Links

def pageVaddr (pgn : ℕ) : ℕ := getKernelVaddr (getPagePaddr pgn)

theorem machinePageNum_eq : machinePageNum = 131072 := rfl

theorem pageVaddr_eq {p : ℕ} (hp : p < machinePageNum) : pageVaddr p = 2147483648 + p * 4096 := by
  rw [machinePageNum_eq] at hp
  have hlt : p * 4096 < 2 ^ 31 := by norm_num; omega
  have h := Nat.two_pow_add_eq_or_of_lt hlt 1
  simp only [pageVaddr, getKernelVaddr, getPagePaddr, pageShift, kernelEntry, Nat.shiftLeft_eq]
  rw [Nat.or_comm]
  simpa using h.symm

theorem getKernelPaddr_eq (x : ℕ) : getKernelPaddr x = x % 2147483648 :=
  Nat.and_two_pow_sub_one_eq_mod x 31

theorem lowerAlign_page {p x : ℕ} (hp : p < machinePageNum) (h1 : pageVaddr p ≤ x)
    (h2 : x < pageVaddr p + 4096) : lowerAlign x pageSize = pageVaddr p := by
  rw [pageVaddr_eq hp] at h1 h2 ⊢
  rw [machinePageNum_eq] at hp
  have h := lowerAlign_eq (x := x) (k := 12) (by simp only [uintRange]; omega) (by decide)
  rw [show pageSize = 2 ^ 12 from rfl, h]
  omega

theorem getPageBySlab_eq {p : ℕ} (hp : p < machinePageNum) : getPageBySlab (pageVaddr p) = p := by
  rw [getPageBySlab, getKernelPaddr_eq, pageVaddr_eq hp, getPgnByPaddr, Nat.shiftRight_eq_div_pow]
  rw [machinePageNum_eq] at hp
  simp only [pageShift]
  omega

/-- The objects carved out of a slab page so far: the nodes behind them are `slot 1` to
`slot (allocNum + freeNum)`, and the last of them stays at the tail of the free list until the
page is used up. -/
structure Carved (c : KmemCache) (v : ℕ) (slab : SlabHead) (allocs frees : List ℕ) : Prop where
  allocNum : slab.allocNum = allocs.length
  freeNum : slab.freeNum = frees.length
  le : slab.allocNum + slab.freeNum ≤ c.capacity
  nodes : ∀ x, x ∈ allocs ∨ x ∈ frees ↔
    ∃ k, 1 ≤ k ∧ k ≤ slab.allocNum + slab.freeNum ∧ x = v + slabHeadBytes + k * c.size
  tail : slab.allocNum + slab.freeNum < c.capacity →
    frees.getLast? = some (v + slabHeadBytes + (slab.allocNum + slab.freeNum) * c.size)

namespace Carved

variable {c : KmemCache} {v : ℕ} {slab : SlabHead} {allocs frees : List ℕ}

theorem init (c : KmemCache) (v : ℕ) (hc : 1 ≤ c.capacity) :
    Carved c v ⟨0, 1⟩ [] [v + slabHeadBytes + c.size] where
  allocNum := rfl
  freeNum := rfl
  le := hc
  nodes x := by
    constructor
    · intro h
      exact ⟨1, le_rfl, le_rfl, by simpa using h⟩
    · rintro ⟨k, h1, h2, rfl⟩
      obtain rfl : k = 1 := by simp at h2; omega
      simp
  tail _ := by simp

theorem freeNum_pos (h : Carved c v slab allocs frees) (hfull : slab.allocNum ≠ c.capacity) :
    frees ≠ [] := by
  intro he
  have h1 := h.freeNum
  have h2 := h.le
  rw [he, List.length_nil] at h1
  have h3 := h.tail (by omega)
  simp [he] at h3

theorem carve (h : Carved c v slab allocs frees)
    (hlt : slab.allocNum + slab.freeNum < c.capacity) :
    Carved c v ⟨slab.allocNum, slab.freeNum + 1⟩ allocs
      (frees ++ [v + slabHeadBytes + (slab.allocNum + slab.freeNum) * c.size + c.size]) where
  allocNum := h.allocNum
  freeNum := by simp [h.freeNum]
  le := hlt
  nodes x := by
    have hx := h.nodes x
    simp only [List.mem_append, List.mem_singleton, ← or_assoc, hx]
    constructor
    · rintro (⟨k, h1, h2, rfl⟩ | rfl)
      · exact ⟨k, h1, by omega, rfl⟩
      · exact ⟨slab.allocNum + (slab.freeNum + 1), by omega, le_rfl, by ring⟩
    · rintro ⟨k, h1, h2, rfl⟩
      rcases Nat.lt_or_ge (slab.allocNum + slab.freeNum) k with hk | hk
      · obtain rfl : k = slab.allocNum + slab.freeNum + 1 := by omega
        exact .inr (by ring)
      · exact .inl ⟨k, h1, hk, rfl⟩
  tail _ := by
    rw [List.getLast?_concat]
    exact congrArg some (by ring)

theorem not_mem_next (h : Carved c v slab allocs frees) (hc : 0 < c.size) :
    v + slabHeadBytes + (slab.allocNum + slab.freeNum) * c.size + c.size ∉ allocs ∧
      v + slabHeadBytes + (slab.allocNum + slab.freeNum) * c.size + c.size ∉ frees := by
  rw [← not_or, h.nodes]
  rintro ⟨k, -, h2, hk⟩
  have := Nat.mul_le_mul_right c.size h2
  omega

theorem take {x : ℕ} (h : Carved c v slab allocs (x :: frees))
    (hlast : slab.freeNum = 1 → slab.allocNum + slab.freeNum = c.capacity) :
    Carved c v ⟨slab.allocNum + 1, slab.freeNum - 1⟩ (x :: allocs) frees := by
  have hf := h.freeNum
  have hle := h.le
  rw [List.length_cons] at hf
  have hsum : slab.allocNum + 1 + (slab.freeNum - 1) = slab.allocNum + slab.freeNum := by omega
  refine ⟨by simp [h.allocNum], by simp [hf], by simpa only [hsum], fun y => ?_, fun hlt => ?_⟩
  · simp only [hsum, ← h.nodes y, List.mem_cons]
    tauto
  · simp only [hsum] at hlt ⊢
    have htail := h.tail hlt
    have hne : frees ≠ [] := by
      rintro rfl
      exact absurd (hlast (by simpa using hf)) (by omega)
    rwa [List.getLast?_cons_of_ne_nil hne] at htail

theorem give {x : ℕ} (h : Carved c v slab allocs frees) (hx : x ∈ allocs) (hnd : allocs.Nodup) :
    Carved c v ⟨slab.allocNum - 1, slab.freeNum + 1⟩ (allocs.erase x) (x :: frees) := by
  have ha := h.allocNum
  have hle := h.le
  have hpos : 0 < allocs.length := List.length_pos_of_mem hx
  have hsum : slab.allocNum - 1 + (slab.freeNum + 1) = slab.allocNum + slab.freeNum := by omega
  refine ⟨by simp [List.length_erase_of_mem hx, ha], by simp [h.freeNum], by simpa only [hsum],
    fun y => ?_, fun hlt => ?_⟩
  · simp only [hsum, ← h.nodes y, List.mem_cons, hnd.mem_erase_iff]
    constructor
    · rintro (⟨-, hy⟩ | rfl | hy)
      exacts [.inl hy, .inl hx, .inr hy]
    · rintro (hy | hy)
      · by_cases e : y = x
        exacts [.inr (.inl e), .inl ⟨e, hy⟩]
      · exact .inr (.inr hy)
  · simp only [hsum] at hlt ⊢
    have htail := h.tail hlt
    have hne : frees ≠ [] := by
      rintro rfl
      simp at htail
    rwa [List.getLast?_cons_of_ne_nil hne]

end Carved

def slabHeads : Set PageList :=
  {h | (∃ k ≤ maxBuddyOrder, h = .freelist k) ∨
    ∃ i < kmemCacheNum, h = .slabPartial i ∨ h = .slabFull i ∨ h = .slabFree i}

def onCache (lists : PageList → List ℕ) (i p : ℕ) : Prop :=
  p ∈ lists (.slabPartial i) ∨ p ∈ lists (.slabFull i) ∨ p ∈ lists (.slabFree i)

def objectHeads (lists : PageList → List ℕ) : Set SlabList :=
  {h | ∃ i p, onCache lists i p ∧ (h = .allocList (pageVaddr p) ∨ h = .freeList (pageVaddr p))}

def slabPlace (c : KmemCache) (i : ℕ) (slab : SlabHead) : PageList :=
  if slab.allocNum = c.capacity then .slabFull i
  else if slab.allocNum = 0 then .slabFree i
  else .slabPartial i

structure CacheShape (c : KmemCache) (i : ℕ) : Prop where
  size : c.size = kmemCacheSize i + listHeadBytes
  objectSize : c.objectSize = kmemCacheSize i
  capacity : c.capacity = (pageSize - slabHeadBytes) / (kmemCacheSize i + listHeadBytes)

structure SlabPage (s : SlabSys) (B : Set Block) (objs : SlabList → List ℕ) (i p : ℕ) : Prop where
  block : ⟨p, 0⟩ ∈ allocBlocks s.buddy B
  page : s.buddy.pages p = ⟨buddySlab, pageVaddr p, 0, some i⟩
  carved : Carved (s.caches i) (pageVaddr p) (s.slabs (pageVaddr p))
    (objs (.allocList (pageVaddr p))) (objs (.freeList (pageVaddr p)))

structure SlabInv (s : SlabSys) (B : Set Block) (lists : PageList → List ℕ)
    (objs : SlabList → List ℕ) : Prop where
  buddy : BuddyInv slabHeads s.buddy B ∅ lists
  machine : s.buddy.startPfn + s.buddy.pageNum ≤ machinePageNum
  shape : ∀ i < kmemCacheNum, CacheShape (s.caches i) i
  rings : Rings (objectHeads lists) s.objects objs
  slab : ∀ i p, onCache lists i p → SlabPage s B objs i p
  place : ∀ i p, onCache lists i p →
    p ∈ lists (slabPlace (s.caches i) i (s.slabs (pageVaddr p)))
  cpu : ∀ i < kmemCacheNum, ∀ p, (s.caches i).cpuPage = some p → onCache lists i p

theorem mem_slabHeads {i : ℕ} (hi : i < kmemCacheNum) :
    .slabPartial i ∈ slabHeads ∧ .slabFull i ∈ slabHeads ∧ .slabFree i ∈ slabHeads :=
  ⟨.inr ⟨i, hi, .inl rfl⟩, .inr ⟨i, hi, .inr (.inl rfl)⟩, .inr ⟨i, hi, .inr (.inr rfl)⟩⟩

theorem slabPlace_mem {i : ℕ} (hi : i < kmemCacheNum) (c : KmemCache) (slab : SlabHead) :
    slabPlace c i slab ∈ slabHeads := by
  obtain ⟨h1, h2, h3⟩ := mem_slabHeads hi
  unfold slabPlace
  split
  · exact h2
  · split
    exacts [h3, h1]

theorem onCache_of_place {lists : PageList → List ℕ} {c : KmemCache} {i p : ℕ} {slab : SlabHead}
    (h : p ∈ lists (slabPlace c i slab)) : onCache lists i p := by
  unfold slabPlace at h
  split at h
  · exact .inr (.inl h)
  · split at h
    exacts [.inr (.inr h), .inl h]

theorem capacity_bounds {i : ℕ} (hi : i < kmemCacheNum) :
    1 ≤ (pageSize - slabHeadBytes) / (kmemCacheSize i + listHeadBytes) ∧
      slabHeadBytes + (pageSize - slabHeadBytes) / (kmemCacheSize i + listHeadBytes) *
        (kmemCacheSize i + listHeadBytes) + listHeadBytes ≤ pageSize ∧ 0 < kmemCacheSize i := by
  revert i
  decide

namespace SlabInv

variable {s : SlabSys} {B : Set Block} {lists : PageList → List ℕ} {objs : SlabList → List ℕ}
  {i j p q : ℕ}

theorem cache_lt (hi : SlabInv s B lists objs) (hp : onCache lists i p) : i < kmemCacheNum := by
  have hmem : ∀ h, p ∈ lists h → h ∈ slabHeads := fun h hh => hi.buddy.rings.mem_heads hh
  rcases hp with h | h | h <;> rcases hmem _ h with ⟨k, -, hk⟩ | ⟨j, hj, hk | hk | hk⟩ <;>
    simp_all

theorem cache_unique (hi : SlabInv s B lists objs) (hp : onCache lists i p)
    (hq : onCache lists j p) : i = j := by
  have hd := hi.buddy.rings.disjoint
  rcases hp with h | h | h <;> rcases hq with h' | h' | h' <;> simpa using hd _ _ p h h'

theorem page_lt (hi : SlabInv s B lists objs) (hp : onCache lists i p) : p < machinePageNum := by
  have h1 := (hi.buddy.tiling.mem_range (hi.slab i p hp).block.1 (Block.head_mem _)).2
  exact h1.trans_le hi.machine

theorem slot_bounds (hi : SlabInv s B lists objs) (hlt : i < kmemCacheNum) {k : ℕ} (h1 : 1 ≤ k)
    (h2 : k ≤ (s.caches i).capacity) :
    kmemCacheSize i + listHeadBytes ≤ k * (s.caches i).size ∧
      slabHeadBytes + k * (s.caches i).size + listHeadBytes ≤ pageSize := by
  have hs := hi.shape i hlt
  have hb := capacity_bounds hlt
  rw [hs.capacity] at h2
  rw [hs.size]
  have h3 := Nat.mul_le_mul_right (kmemCacheSize i + listHeadBytes) h1
  have h4 := Nat.mul_le_mul_right (kmemCacheSize i + listHeadBytes) h2
  omega

theorem node_range (hi : SlabInv s B lists objs) (hp : onCache lists i p) {x : ℕ}
    (hx : x ∈ objs (.allocList (pageVaddr p)) ∨ x ∈ objs (.freeList (pageVaddr p))) :
    pageVaddr p + slabHeadBytes + kmemCacheSize i + listHeadBytes ≤ x ∧
      x + listHeadBytes ≤ pageVaddr p + pageSize := by
  have hc := (hi.slab i p hp).carved
  obtain ⟨k, h1, h2, rfl⟩ := (hc.nodes x).mp hx
  have := hi.slot_bounds (hi.cache_lt hp) h1 (h2.trans hc.le)
  omega

theorem vaddr_inj (hp : p < machinePageNum) (hq : q < machinePageNum) {x : ℕ}
    (h1 : pageVaddr p ≤ x ∧ x < pageVaddr p + pageSize)
    (h2 : pageVaddr q ≤ x ∧ x < pageVaddr q + pageSize) : p = q := by
  rw [pageVaddr_eq hp] at h1
  rw [pageVaddr_eq hq] at h2
  simp only [pageSize] at h1 h2
  omega

theorem not_mem_objs (hi : SlabInv s B lists objs) (hp : p < machinePageNum)
    (hnew : ∀ i, ¬ onCache lists i p) {x : ℕ} (h1 : pageVaddr p ≤ x)
    (h2 : x < pageVaddr p + pageSize) (h : SlabList) : x ∉ objs h := by
  intro hx
  obtain ⟨j, q, hq, hh⟩ := hi.rings.mem_heads hx
  have hr := hi.node_range hq (hh.imp (· ▸ hx) (· ▸ hx))
  have hlb : listHeadBytes = 8 := rfl
  obtain rfl := vaddr_inj hp (hi.page_lt hq) ⟨h1, h2⟩ ⟨by omega, by omega⟩
  exact hnew j hq

end SlabInv

end OurOS
