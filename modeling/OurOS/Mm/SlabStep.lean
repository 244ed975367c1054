import OurOS.Mm.SlabInv

set_option linter.style.nameCheck false

namespace OurOS

open AlignedBlocks Links

def liveObject (lists : PageList → List ℕ) (objs : SlabList → List ℕ) (i p objp : ℕ) : Prop :=
  onCache lists i p ∧ objp + kmemCacheSize i ∈ objs (.allocList (pageVaddr p))

def liveBlock (s : SlabSys) (B : Set Block) (b : Block) (objp : ℕ) : Prop :=
  b ∈ allocBlocks s.buddy B ∧ (s.buddy.pages b.head).usedInfo = buddyAlloced ∧
    objp = pageVaddr b.head

def isLive (s : SlabSys) (B : Set Block) (lists : PageList → List ℕ) (objs : SlabList → List ℕ)
    (objp : ℕ) : Prop :=
  (∃ i p, liveObject lists objs i p objp) ∨ ∃ b, liveBlock s B b objp

/-- Every live allocation outside `dead` stays, in the same object or block. -/
structure Survive (s t : SlabSys) (B C : Set Block) (lists lists' : PageList → List ℕ)
    (objs objs' : SlabList → List ℕ) (dead : Set ℕ) : Prop where
  objects : ∀ j q x, x ∉ dead → liveObject lists objs j q x → liveObject lists' objs' j q x
  blocks : ∀ b x, x ∉ dead → liveBlock s B b x → liveBlock t C b x
  zone : t.buddy.startPfn = s.buddy.startPfn ∧ t.buddy.pageNum = s.buddy.pageNum

namespace Survive

variable {s t u : SlabSys} {B C D : Set Block} {lists lists' lists'' : PageList → List ℕ}
  {objs objs' objs'' : SlabList → List ℕ} {dead : Set ℕ}

theorem refl (s : SlabSys) (B : Set Block) (lists : PageList → List ℕ) (objs : SlabList → List ℕ)
    (dead : Set ℕ) : Survive s s B B lists lists objs objs dead :=
  ⟨fun _ _ _ _ => id, fun _ _ _ => id, rfl, rfl⟩

theorem trans (h₁ : Survive s t B C lists lists' objs objs' dead)
    (h₂ : Survive t u C D lists' lists'' objs' objs'' dead) :
    Survive s u B D lists lists'' objs objs'' dead :=
  ⟨fun j q x hx h => h₂.objects j q x hx (h₁.objects j q x hx h),
    fun b x hx h => h₂.blocks b x hx (h₁.blocks b x hx h),
    h₂.zone.1.trans h₁.zone.1, h₂.zone.2.trans h₁.zone.2⟩

theorem isLive (h : Survive s t B C lists lists' objs objs' dead) {x : ℕ}
    (hx : isLive s B lists objs x) (hd : x ∉ dead) : isLive t C lists' objs' x := by
  rcases hx with ⟨j, q, hx⟩ | ⟨b, hx⟩
  exacts [.inl ⟨j, q, h.objects j q x hd hx⟩, .inr ⟨b, h.blocks b x hd hx⟩]

theorem mono {dead' : Set ℕ} (h : Survive s t B C lists lists' objs objs' dead)
    (hd : dead ⊆ dead') : Survive s t B C lists lists' objs objs' dead' :=
  ⟨fun j q x hx => h.objects j q x fun hm => hx (hd hm),
    fun b x hx => h.blocks b x fun hm => hx (hd hm), h.zone⟩

end Survive

/-- What an operation on cache `i` leaves: at most one page joins the cache, and every live
allocation outside `dead` stays. -/
structure LiveFrame (s t : SlabSys) (B C : Set Block) (lists lists' : PageList → List ℕ)
    (objs objs' : SlabList → List ℕ) (i : ℕ) (joined : Option ℕ) (dead : Set ℕ) : Prop where
  onCache : ∀ j q, onCache lists' j q ↔ onCache lists j q ∨ (j = i ∧ joined = some q)
  objects : ∀ j q x, x ∉ dead → liveObject lists objs j q x → liveObject lists' objs' j q x
  blocks : ∀ b x, x ∉ dead → liveBlock s B b x → liveBlock t C b x
  marked : ∀ q, (t.buddy.pages q).usedInfo = buddySlab →
    (s.buddy.pages q).usedInfo = buddySlab ∨ joined = some q
  zone : t.buddy.startPfn = s.buddy.startPfn ∧ t.buddy.pageNum = s.buddy.pageNum

namespace LiveFrame

variable {s t u : SlabSys} {B C D : Set Block} {lists lists' lists'' : PageList → List ℕ}
  {objs objs' objs'' : SlabList → List ℕ} {i : ℕ} {joined : Option ℕ} {dead : Set ℕ}

theorem refl (s : SlabSys) (B : Set Block) (lists : PageList → List ℕ)
    (objs : SlabList → List ℕ) (i : ℕ) : LiveFrame s s B B lists lists objs objs i none ∅ :=
  ⟨fun _ _ => by simp, fun _ _ _ _ => id, fun _ _ _ => id, fun _ => .inl, rfl, rfl⟩

theorem trans (h₁ : LiveFrame s t B C lists lists' objs objs' i joined dead)
    (h₂ : LiveFrame t u C D lists' lists'' objs' objs'' i none dead) :
    LiveFrame s u B D lists lists'' objs objs'' i joined dead where
  onCache j q := (h₂.onCache j q).trans (by simp [h₁.onCache])
  objects j q x hx h := h₂.objects j q x hx (h₁.objects j q x hx h)
  blocks b x hx h := h₂.blocks b x hx (h₁.blocks b x hx h)
  marked q h := h₁.marked q ((h₂.marked q h).resolve_right (by simp))
  zone := ⟨h₂.zone.1.trans h₁.zone.1, h₂.zone.2.trans h₁.zone.2⟩

theorem survive (h : LiveFrame s t B C lists lists' objs objs' i joined dead) :
    Survive s t B C lists lists' objs objs' dead := ⟨h.objects, h.blocks, h.zone⟩

end LiveFrame

structure Exhausted (s : SlabSys) (B : Set Block) (lists : PageList → List ℕ) (i : ℕ) : Prop where
  partials : lists (.slabPartial i) = []
  frees : lists (.slabFree i) = []
  blocks : freeBlocks s.buddy B = ∅

/-- The page that the next allocation from cache `i` asks the buddy system for. -/
def obtainedPage (s : SlabSys) (i : ℕ) : Option ℕ :=
  let current := (s.caches i).cpuPage.filter fun pgn =>
    !slabIsFull (s.caches i) (s.slabs (s.buddy.pages pgn).virtual)
  if current.isNone && listEmpty s.buddy.links (.inl (.slabPartial i)) &&
      listEmpty s.buddy.links (.inl (.slabFree i)) then
    (__allocPages s.buddy 0 buddySlab).2
  else none

theorem onCache_congr {lists lists' : PageList → List ℕ}
    (hl : ∀ h, (∀ k, h ≠ .freelist k) → lists' h = lists h) {i p : ℕ} :
    onCache lists' i p ↔ onCache lists i p := by
  simp only [onCache, hl (.slabPartial i) (by simp), hl (.slabFull i) (by simp),
    hl (.slabFree i) (by simp)]

/-- The page lists with `p` at the head of the free slabs of cache `i`. -/
def pushFree (lists : PageList → List ℕ) (i p : ℕ) : PageList → List ℕ :=
  Function.update lists (.slabFree i) (p :: lists (.slabFree i))

theorem mem_pushFree {lists : PageList → List ℕ} {i p q : ℕ} {h : PageList} :
    q ∈ pushFree lists i p h ↔ (q = p ∧ h = .slabFree i) ∨ q ∈ lists h := by
  by_cases e : h = .slabFree i
  · subst e
    simp [pushFree]
  · simp [pushFree, e]

theorem onCache_pushFree {lists : PageList → List ℕ} {i j p q : ℕ} :
    onCache (pushFree lists i p) j q ↔ (j = i ∧ q = p) ∨ onCache lists j q := by
  simp only [onCache, mem_pushFree, reduceCtorEq, and_false, false_or, PageList.slabFree.injEq]
  tauto

theorem objectHeads_pushFree (lists : PageList → List ℕ) (i p : ℕ) :
    objectHeads (pushFree lists i p) =
      insert (.freeList (pageVaddr p)) (insert (.allocList (pageVaddr p)) (objectHeads lists)) := by
  ext h
  simp only [objectHeads, onCache_pushFree, Set.mem_insert_iff, Set.mem_ofPred_eq]
  constructor
  · rintro ⟨j, q, ⟨-, rfl⟩ | hq, rfl | rfl⟩
    exacts [.inr (.inl rfl), .inl rfl, .inr (.inr ⟨j, q, hq, .inl rfl⟩),
      .inr (.inr ⟨j, q, hq, .inr rfl⟩)]
  · rintro (rfl | rfl | ⟨j, q, hq, h⟩)
    exacts [⟨i, p, .inl ⟨rfl, rfl⟩, .inr rfl⟩, ⟨i, p, .inl ⟨rfl, rfl⟩, .inl rfl⟩,
      ⟨j, q, .inr hq, h⟩]

/-- The object lists of the pages with `p` as one that has only its first object in them. -/
def pushObject (objs : SlabList → List ℕ) (p size : ℕ) : SlabList → List ℕ :=
  Function.update objs (.freeList (pageVaddr p)) [pageVaddr p + slabHeadBytes + size]

namespace SlabInv

variable {s : SlabSys} {B C : Set Block} {lists lists' : PageList → List ℕ}
  {objs objs' : SlabList → List ℕ} {i j p q : ℕ}

theorem not_listed (hi : SlabInv s B lists objs) {b : Block} (hb : b ∈ allocBlocks s.buddy B)
    (hu : (s.buddy.pages b.head).usedInfo ≠ buddySlab) (h : PageList) : b.head ∉ lists h := by
  intro hp
  have hslab : ∀ i, ¬ onCache lists i b.head := fun i hc => hu (by rw [(hi.slab i _ hc).page])
  rcases hi.buddy.rings.mem_heads hp with ⟨k, -, rfl⟩ | ⟨i, -, rfl | rfl | rfl⟩
  · exact hi.buddy.not_mem_of_alloc hb k hp
  · exact hslab i (.inl hp)
  · exact hslab i (.inr (.inl hp))
  · exact hslab i (.inr (.inr hp))

theorem with_buddy (hi : SlabInv s B lists objs) {b' : BuddySys}
    (hb : BuddyInv slabHeads b' C ∅ lists')
    (hz : b'.startPfn = s.buddy.startPfn ∧ b'.pageNum = s.buddy.pageNum)
    (hl : ∀ h, (∀ k, h ≠ .freelist k) → lists' h = lists h)
    (hkeep : ∀ i p, onCache lists i p →
      ⟨p, 0⟩ ∈ allocBlocks b' C ∧ b'.pages p = s.buddy.pages p) :
    SlabInv { s with buddy := b' } C lists' objs := by
  have hon : ∀ i p, onCache lists' i p ↔ onCache lists i p := fun i p => onCache_congr hl
  have hheads : objectHeads lists' = objectHeads lists := by
    simp only [objectHeads, hon]
  refine ⟨hb, by simpa only [hz.1, hz.2] using hi.machine, hi.shape, hheads ▸ hi.rings,
    fun i p hp => ?_, fun i p hp => ?_, fun i hlt p hp => (hon i p).mpr (hi.cpu i hlt p hp)⟩
  · rw [hon] at hp
    have hs := hi.slab i p hp
    exact ⟨(hkeep i p hp).1, (hkeep i p hp).2.trans hs.page, hs.carved⟩
  · rw [hon] at hp
    rw [hl]
    · exact hi.place i p hp
    · intro k
      unfold slabPlace
      split <;> [skip; split] <;> simp

theorem update_page (hi : SlabInv s B lists objs) (hp : onCache lists i p) (slab : SlabHead)
    {links : PageLinks} {objects : ObjectLinks} (hl : Rings slabHeads links lists')
    (hmem : ∀ h q, q ∈ lists' h ↔
      (q ≠ p ∧ q ∈ lists h) ∨ (q = p ∧ h = slabPlace (s.caches i) i slab))
    (ho : Rings (objectHeads lists) objects objs')
    (hother : ∀ v, v ≠ pageVaddr p →
      objs' (.allocList v) = objs (.allocList v) ∧ objs' (.freeList v) = objs (.freeList v))
    (hc : Carved (s.caches i) (pageVaddr p) slab (objs' (.allocList (pageVaddr p)))
      (objs' (.freeList (pageVaddr p)))) :
    SlabInv { s with
      buddy := { s.buddy with links := links }
      objects := objects
      slabs := Function.update s.slabs (pageVaddr p) slab } B lists' objs' ∧
      ∀ j q, onCache lists' j q ↔ onCache lists j q := by
  have hlt := hi.cache_lt hp
  have hplace : ∀ h, p ∈ lists' h ↔ h = slabPlace (s.caches i) i slab := by
    intro h
    simp [hmem]
  have hne : ∀ h q, q ≠ p → (q ∈ lists' h ↔ q ∈ lists h) := by
    intro h q hq
    simp [hmem, hq]
  have hon : ∀ j q, onCache lists' j q ↔ onCache lists j q := by
    intro j q
    by_cases e : q = p
    · subst e
      constructor
      · intro hq
        have hji : j = i := by
          unfold onCache slabPlace at *
          rw [hplace, hplace, hplace] at hq
          split at hq <;> [skip; split at hq] <;> simpa using hq
        exact hji ▸ hp
      · intro hq
        obtain rfl := hi.cache_unique hp hq
        exact onCache_of_place ((hplace _).mpr rfl)
    · simp only [onCache, hne _ q e]
  have hheads : objectHeads lists' = objectHeads lists := by
    simp only [objectHeads, hon]
  have hfree : ∀ k, PageList.freelist k ≠ slabPlace (s.caches i) i slab := by
    intro k
    unfold slabPlace
    split <;> [skip; split] <;> simp
  have hpk : ∀ k, p ∉ lists (.freelist k) := fun k =>
    hi.buddy.not_mem_of_alloc (hi.slab i p hp).block k
  have hv : ∀ j q, onCache lists j q → q ≠ p → pageVaddr q ≠ pageVaddr p := by
    intro j q hq hqp he
    rw [pageVaddr_eq (hi.page_lt hq), pageVaddr_eq (hi.page_lt hp)] at he
    omega
  refine ⟨⟨hi.buddy.relink hl hi.buddy.heads (fun k q => ?_) (fun h q hq => ?_), hi.machine,
    hi.shape, hheads ▸ ho, fun j q hq => ?_, fun j q hq => ?_, fun j hj q hq => ?_⟩, hon⟩
  · by_cases e : q = p
    · subst e
      simp [hplace, hfree k, hpk k]
    · exact hne _ q e
  · by_cases e : q = p
    · exact ⟨⟨q, 0⟩, (e ▸ (hi.slab i p hp).block).1, rfl⟩
    · exact hi.buddy.listed h q ((hne h q e).mp hq)
  · rw [hon] at hq
    have hs := hi.slab j q hq
    refine ⟨hs.block, hs.page, ?_⟩
    by_cases e : q = p
    · subst e
      obtain rfl := hi.cache_unique hp hq
      simpa only [Function.update_self] using hc
    · have hvq := hv j q hq e
      simpa only [Function.update_of_ne hvq, hother _ hvq] using hs.carved
  · rw [hon] at hq
    by_cases e : q = p
    · subst e
      obtain rfl := hi.cache_unique hp hq
      simp only [Function.update_self]
      exact (hplace _).mpr rfl
    · simp only [Function.update_of_ne (hv j q hq e)]
      exact (hne _ q e).mpr (hi.place j q hq)
  · exact (hon j q).mpr (hi.cpu j hj q hq)

theorem fresh_heads (hi : SlabInv s B lists objs) (hp : p < machinePageNum)
    (hnew : ∀ i, ¬ onCache lists i p) :
    .allocList (pageVaddr p) ∉ objectHeads lists ∧ .freeList (pageVaddr p) ∉ objectHeads lists := by
  have hv : ∀ j q, onCache lists j q → pageVaddr p ≠ pageVaddr q := by
    intro j q hq he
    rw [pageVaddr_eq (hi.page_lt hq), pageVaddr_eq hp] at he
    obtain rfl : p = q := by omega
    exact hnew j hq
  constructor
  · rintro ⟨j, q, hq, h | h⟩
    · exact hv j q hq (SlabList.allocList.inj h)
    · simp at h
  · rintro ⟨j, q, hq, h | h⟩
    · simp at h
    · exact hv j q hq (SlabList.freeList.inj h)

theorem pushObject_rings (hi : SlabInv s B lists objs) (hlt : i < kmemCacheNum)
    (hp : p < machinePageNum) (hnew : ∀ j, ¬ onCache lists j p) :
    Rings (objectHeads (pushFree lists i p))
      (listAddTail (initListHead (initListHead s.objects (.inl (.allocList (pageVaddr p))))
        (.inl (.freeList (pageVaddr p))))
        (.inr (pageVaddr p + slabHeadBytes + (s.caches i).size)) (.inl (.freeList (pageVaddr p))))
      (pushObject objs p (s.caches i).size) := by
  obtain ⟨hha, hhf⟩ := hi.fresh_heads hp hnew
  have hsize : (s.caches i).size = kmemCacheSize i + listHeadBytes := (hi.shape i hlt).size
  have hbound := hi.slot_bounds hlt le_rfl (by
    rw [(hi.shape i hlt).capacity]
    exact (capacity_bounds hlt).1)
  have hfirst := hi.not_mem_objs hp hnew (x := pageVaddr p + slabHeadBytes + (s.caches i).size)
    (by omega) (by have : listHeadBytes = 8 := rfl; omega)
  have ho := (hi.rings.reset_head (hi.rings.off _ hha)).reset_head (hi.rings.off _ hhf)
  have ho' := listAddTail_rings ho (.inl rfl) hfirst
  rw [hi.rings.off _ hhf, List.nil_append] at ho'
  rw [objectHeads_pushFree]
  exact ho'

theorem add_page (hi : SlabInv s B lists objs) (hlt : i < kmemCacheNum)
    (hb : ⟨p, 0⟩ ∈ allocBlocks s.buddy B) (hout : ∀ h, p ∉ lists h)
    (hu : (s.buddy.pages p).usedInfo = buddySlab) :
    let buddy := { s.buddy with
      pages := Function.update s.buddy.pages p ⟨buddySlab, pageVaddr p, 0, some i⟩
      links := listAdd s.buddy.links (.inr p) (.inl (.slabFree i)) }
    let t := initObjectInPage { s with buddy := buddy } i p
    ∃ lists' objs', SlabInv t B lists' objs' ∧ onCache lists' i p ∧
      (t.slabs (pageVaddr p)).allocNum = 0 ∧ t.caches = s.caches ∧
      LiveFrame s t B B lists lists' objs objs' i (some p) ∅ := by
  intro buddy t
  have hnew : ∀ j, ¬ onCache lists j p := fun j h => by
    rcases h with h | h | h <;> exact hout _ h
  have hmach : p < machinePageNum :=
    (hi.buddy.tiling.mem_range hb.1 (Block.head_mem _)).2.trans_le hi.machine
  have hcap : 1 ≤ (s.caches i).capacity := by
    rw [(hi.shape i hlt).capacity]
    exact (capacity_bounds hlt).1
  obtain ⟨hb1, hb2, hb3⟩ := hi.buddy.set_page hb hout ⟨buddySlab, pageVaddr p, 0, some i⟩
    rfl (by exact (by decide : buddySlab ≠ buddyFree))
  have hl := listAdd_rings hb1.rings (mem_slabHeads hlt).2.2 hout
  have halloc : ∀ v, pushObject objs p (s.caches i).size (.allocList v) = objs (.allocList v) := by
    intro v
    simp [pushObject]
  have hfrees : ∀ v, v ≠ pageVaddr p →
      pushObject objs p (s.caches i).size (.freeList v) = objs (.freeList v) := by
    intro v hv
    simp [pushObject, hv]
  have hvirt : (buddy.pages p).virtual = pageVaddr p := by simp [buddy]
  have ht : t = { s with
      buddy := buddy
      objects := listAddTail (initListHead (initListHead s.objects (.inl (.allocList (pageVaddr p))))
        (.inl (.freeList (pageVaddr p))))
        (.inr (pageVaddr p + slabHeadBytes + (s.caches i).size)) (.inl (.freeList (pageVaddr p)))
      slabs := Function.update s.slabs (pageVaddr p) ⟨0, 1⟩ } := by
    simp only [t, initObjectInPage, hvirt]
  have hlive : ∀ c, c ∈ allocBlocks t.buddy B ↔ c ∈ allocBlocks s.buddy B := by
    rw [ht]
    exact hb2
  have hoff : ∀ j q, onCache lists j q → q ≠ p ∧ pageVaddr q ≠ pageVaddr p := by
    intro j q hq
    have hqp : q ≠ p := fun e => hnew j (e ▸ hq)
    refine ⟨hqp, fun he => hqp ?_⟩
    rw [pageVaddr_eq (hi.page_lt hq), pageVaddr_eq hmach] at he
    omega
  refine ⟨pushFree lists i p, pushObject objs p (s.caches i).size,
    ⟨?_, by rw [ht]; exact hi.machine, by rw [ht]; exact hi.shape, ?_,
    fun j q hq => ?_, fun j q hq => ?_, fun j hj q hq => ?_⟩, onCache_pushFree.mpr (.inl ⟨rfl, rfl⟩),
    ?_, by rw [ht], fun j q => ?_, fun j q x _ hx => ?_, fun c x _ hc => ?_, fun q hq => ?_,
    by rw [ht], by rw [ht]⟩
  · rw [ht]
    refine hb1.relink hl hi.buddy.heads (fun k q => by simp [mem_pushFree]) fun h q hq => ?_
    rcases mem_pushFree.mp hq with ⟨rfl, -⟩ | hq
    · exact ⟨⟨q, 0⟩, hb.1, rfl⟩
    · exact hi.buddy.listed h q hq
  · rw [ht]
    exact hi.pushObject_rings hlt hmach hnew
  · rcases onCache_pushFree.mp hq with ⟨rfl, rfl⟩ | hq
    · refine ⟨(hlive _).mpr hb, by rw [ht]; simp [buddy], ?_⟩
      rw [ht, halloc, hi.rings.off _ (hi.fresh_heads hmach hnew).1, pushObject]
      simp only [Function.update_self]
      exact Carved.init _ _ hcap
    · have hs := hi.slab j q hq
      obtain ⟨hqp, hv⟩ := hoff j q hq
      refine ⟨(hlive _).mpr hs.block, ?_, ?_⟩
      · rw [ht, ← hs.page]
        exact hb3 _ hs.block (by simp [hqp])
      · rw [ht, halloc, hfrees _ hv]
        simp only [Function.update_of_ne hv]
        exact hs.carved
  · rw [ht]
    rcases onCache_pushFree.mp hq with ⟨rfl, rfl⟩ | hq
    · have hne : ¬ (0 = (s.caches j).capacity) := by omega
      simp only [Function.update_self, slabPlace, mem_pushFree, hne, if_false, if_true]
      exact .inl ⟨trivial, trivial⟩
    · simp only [Function.update_of_ne (hoff j q hq).2]
      exact mem_pushFree.mpr (.inr (hi.place j q hq))
  · rw [ht] at hq
    exact onCache_pushFree.mpr (.inr (hi.cpu j hj q hq))
  · rw [ht]
    simp
  · rw [onCache_pushFree, or_comm, Option.some.injEq, eq_comm (a := q)]
  · exact ⟨onCache_pushFree.mpr (.inr hx.1), by rw [halloc]; exact hx.2⟩
  · obtain ⟨hc, huc, hx⟩ := hc
    have e : c ≠ ⟨p, 0⟩ := by
      rintro rfl
      exact absurd (hu.symm.trans huc) (by decide)
    refine ⟨(hlive c).mpr hc, ?_, hx⟩
    rw [ht]
    exact (congrArg Page.usedInfo (hb3 c hc e)).trans huc
  · rw [ht] at hq
    by_cases e : q = p
    · exact .inr (congrArg some e.symm)
    · exact .inl (by simpa [buddy, e] using hq)

theorem newSlabPage_spec (hi : SlabInv s B lists objs) (hlt : i < kmemCacheNum) {t : SlabSys}
    {r : Option ℕ} (h : newSlabPage s i = (t, r)) :
    (r = none ∧ t = s ∧ freeBlocks s.buddy B = ∅) ∨
      ∃ p C lists' objs', r = some p ∧ SlabInv t C lists' objs' ∧ onCache lists' i p ∧
        (t.slabs (pageVaddr p)).allocNum ≠ (t.caches i).capacity ∧
        LiveFrame s t B C lists lists' objs objs' i (__allocPages s.buddy 0 buddySlab).2 ∅ := by
  have hcap : (s.caches i).capacity ≠ 0 := by
    rw [(hi.shape i hlt).capacity]
    have := (capacity_bounds hlt).1
    omega
  rw [newSlabPage] at h
  cases hr : __allocPages s.buddy 0 buddySlab with
  | mk b o =>
    cases o with
    | none =>
      obtain ⟨rfl, hnone⟩ := hi.buddy.allocPages_none (Nat.zero_le _) hr
      simp only [hr, Prod.mk.injEq] at h
      exact .inl ⟨h.2.symm, h.1.symm,
        Set.eq_empty_of_forall_notMem fun c hc => Nat.not_lt_zero _ (hnone c hc)⟩
    | some p =>
      simp only [hr, Prod.mk.injEq] at h
      obtain ⟨rfl, rfl⟩ := h
      obtain ⟨C, lists₁, h1, -, h3, h4, h5, h6, h7, h8, h9⟩ :=
        hi.buddy.allocPages_some (by decide) hr
      have hkeep : ∀ c ∈ allocBlocks s.buddy B, b.pages c.head = s.buddy.pages c.head := h5
      have hi₁ : SlabInv { s with buddy := b } C lists₁ objs :=
        hi.with_buddy h1 h9 h7 fun j q hq =>
          ⟨(h3 _).mpr (.inr (hi.slab j q hq).block), hkeep _ (hi.slab j q hq).block⟩
      have hblock : ⟨p, 0⟩ ∈ allocBlocks b C := (h3 _).mpr (.inl rfl)
      have hlev : (b.pages p).bplevel = 0 := h1.level _ hblock.1 (by simp)
      have hnew : ({ b.pages p with
          virtual := getKernelVaddr (getPagePaddr p), usedInfo := buddySlab, cachep := some i } : Page) =
          ⟨buddySlab, pageVaddr p, 0, some i⟩ := by
        simp [hlev, pageVaddr]
      obtain ⟨lists', objs', g1, g2, g3, g4, g5⟩ := hi₁.add_page hlt hblock h8 h6
      rw [hnew]
      refine .inr ⟨p, C, lists', objs', rfl, g1, g2, ?_, fun j q => ?_, fun j q x hx hl => ?_,
        fun c x hx hc => ?_, fun q hq => ?_, g5.zone.1.trans h9.1, g5.zone.2.trans h9.2⟩
      · rw [g3, g4]
        exact hcap.symm
      · rw [g5.onCache, onCache_congr h7]
      · exact g5.objects j q x hx ⟨(onCache_congr h7).mpr hl.1, hl.2⟩
      · exact g5.blocks c x hx
          ⟨(h3 c).mpr (.inr hc.1), (congrArg Page.usedInfo (hkeep c hc.1)).trans hc.2.1, hc.2.2⟩
      · by_cases e : q = p
        · exact .inr (congrArg some e.symm)
        · have hm := (g5.marked q hq).resolve_right fun he => e (Option.some.inj he).symm
          rcases BuddyInv.allocPages_usedInfo hr e with hf | hf
          · exact absurd (hf.symm.trans hm) (by decide)
          · exact .inl (hf.symm.trans hm)

theorem not_full (hi : SlabInv s B lists objs)
    (hp : p ∈ lists (.slabPartial i) ∨ p ∈ lists (.slabFree i)) :
    onCache lists i p ∧ (s.slabs (pageVaddr p)).allocNum ≠ (s.caches i).capacity := by
  have hon : onCache lists i p := hp.elim .inl fun h => .inr (.inr h)
  refine ⟨hon, fun he => ?_⟩
  have h1 := hi.place i p hon
  rw [slabPlace, if_pos he] at h1
  rcases hp with h | h <;> simpa using hi.buddy.rings.disjoint _ _ p h1 h

theorem firstEntry (hi : SlabInv s B lists objs) {h : PageList} (hh : h ∈ slabHeads)
    (hne : listEmpty s.buddy.links (.inl h) = false) :
    ∃ p ∈ lists h, listFirstEntry s.buddy.links (.inl h) = some p := by
  rw [listFirstEntry_eq hi.buddy.rings hh]
  cases hl : lists h with
  | nil => simp [(listEmpty_iff hi.buddy.rings hh).mpr hl] at hne
  | cons p ps => exact ⟨p, by simp, rfl⟩

theorem nonFullPage_spec (hi : SlabInv s B lists objs) (hlt : i < kmemCacheNum) {t : SlabSys}
    {r : Option ℕ} (h : nonFullPage s i = (t, r)) :
    (r = none ∧ t = s ∧ Exhausted s B lists i) ∨
      ∃ p C lists' objs', r = some p ∧ SlabInv t C lists' objs' ∧ onCache lists' i p ∧
        (t.slabs (pageVaddr p)).allocNum ≠ (t.caches i).capacity ∧
        LiveFrame s t B C lists lists' objs objs' i
          (if listEmpty s.buddy.links (.inl (.slabPartial i)) &&
            listEmpty s.buddy.links (.inl (.slabFree i)) then
            (__allocPages s.buddy 0 buddySlab).2 else none) ∅ := by
  obtain ⟨hH1, -, hH3⟩ := mem_slabHeads hlt
  rw [nonFullPage] at h
  cases he : listEmpty s.buddy.links (.inl (.slabPartial i)) with
  | false =>
    obtain ⟨p, hp, hf⟩ := hi.firstEntry hH1 he
    simp only [he, hf, Bool.not_false, if_true, Prod.mk.injEq] at h
    obtain ⟨rfl, rfl⟩ := h
    obtain ⟨h1, h2⟩ := hi.not_full (.inl hp)
    exact .inr ⟨p, B, lists, objs, rfl, hi, h1, h2, .refl ..⟩
  | true =>
    cases he' : listEmpty s.buddy.links (.inl (.slabFree i)) with
    | false =>
      obtain ⟨p, hp, hf⟩ := hi.firstEntry hH3 he'
      simp only [he, he', hf, Bool.not_false, Bool.not_true, if_true] at h
      obtain ⟨rfl, rfl⟩ := Prod.mk.inj h
      obtain ⟨h1, h2⟩ := hi.not_full (.inr hp)
      exact .inr ⟨p, B, lists, objs, rfl, hi, h1, h2, .refl ..⟩
    | true =>
      simp only [he, he', Bool.not_true, Bool.false_eq_true, if_false] at h
      rcases hi.newSlabPage_spec hlt h with ⟨h1, h2, h3⟩ | hnew
      · refine .inl ⟨h1, h2, ?_, ?_, h3⟩
        · exact (listEmpty_iff hi.buddy.rings hH1).mp he
        · exact (listEmpty_iff hi.buddy.rings hH3).mp he'
      · exact .inr hnew

theorem resetCpuPage_spec (hi : SlabInv s B lists objs) (hp : onCache lists i p) :
    SlabInv (resetCpuPage s i p) B lists objs := by
  have hcache : ∀ j, ((resetCpuPage s i p).caches j).size = (s.caches j).size ∧
      ((resetCpuPage s i p).caches j).objectSize = (s.caches j).objectSize ∧
      ((resetCpuPage s i p).caches j).capacity = (s.caches j).capacity := by
    intro j
    by_cases e : j = i
    · subst e
      simp [resetCpuPage]
    · simp [resetCpuPage, e]
  refine ⟨hi.buddy, hi.machine, fun j hj => ?_, hi.rings, fun j q hq => ?_, fun j q hq => ?_,
    fun j hj q hq => ?_⟩
  · have hs := hi.shape j hj
    obtain ⟨h1, h2, h3⟩ := hcache j
    exact ⟨h1.trans hs.size, h2.trans hs.objectSize, h3.trans hs.capacity⟩
  · have hs := hi.slab j q hq
    obtain ⟨h1, -, h3⟩ := hcache j
    have hc := hs.carved
    refine ⟨hs.block, hs.page, hc.allocNum, hc.freeNum, ?_, ?_, ?_⟩
    · rw [h3]
      exact hc.le
    · rw [h1]
      exact hc.nodes
    · rw [h1, h3]
      exact hc.tail
  · have h := hi.place j q hq
    unfold slabPlace at h ⊢
    rwa [(hcache j).2.2]
  · by_cases e : j = i
    · subst e
      simp only [resetCpuPage, Function.update_self, Option.some.injEq] at hq
      exact hq ▸ hp
    · simp only [resetCpuPage, Function.update_of_ne e] at hq
      exact hi.cpu j hj q hq

theorem kmemCachePage_spec (hi : SlabInv s B lists objs) (hlt : i < kmemCacheNum) {t : SlabSys}
    {r : Option ℕ} (h : kmemCachePage s i = (t, r)) :
    (r = none ∧ t = s ∧ Exhausted s B lists i) ∨
      ∃ p C lists' objs', r = some p ∧ SlabInv t C lists' objs' ∧ onCache lists' i p ∧
        (t.slabs (pageVaddr p)).allocNum ≠ (t.caches i).capacity ∧
        LiveFrame s t B C lists lists' objs objs' i (obtainedPage s i) ∅ := by
  rw [kmemCachePage] at h
  rw [obtainedPage]
  cases hc : (s.caches i).cpuPage.filter fun pgn =>
      !slabIsFull (s.caches i) (s.slabs (s.buddy.pages pgn).virtual) with
  | some p =>
    simp only [hc, Prod.mk.injEq] at h
    obtain ⟨rfl, rfl⟩ := h
    obtain ⟨hcpu, hfull⟩ := Option.filter_eq_some_iff.mp hc
    have hon := hi.cpu i hlt p hcpu
    rw [(hi.slab i p hon).page] at hfull
    refine .inr ⟨p, B, lists, objs, rfl, hi, hon, ?_, .refl ..⟩
    simpa [slabIsFull] using hfull
  | none =>
    cases hn : nonFullPage s i with
    | mk u o =>
      rcases hi.nonFullPage_spec hlt hn with
        ⟨rfl, rfl, he⟩ | ⟨p, C, lists', objs', rfl, h1, h2, h3, h4⟩
      · simp only [hc, hn, Prod.mk.injEq] at h
        exact .inl ⟨h.2.symm, h.1.symm, he⟩
      · simp only [hc, hn, Prod.mk.injEq] at h
        obtain ⟨rfl, rfl⟩ := h
        refine .inr ⟨p, C, lists', objs', rfl, h1.resetCpuPage_spec h2, h2, ?_, ?_⟩
        · simpa [resetCpuPage] using h3
        · exact ⟨h4.onCache, h4.objects, h4.blocks, h4.marked, h4.zone⟩

theorem place_iff (hi : SlabInv s B lists objs) (hp : onCache lists i p) (h : PageList) :
    p ∈ lists h ↔ h = slabPlace (s.caches i) i (s.slabs (pageVaddr p)) := by
  constructor
  · exact fun hh => hi.buddy.rings.disjoint _ _ p hh (hi.place i p hp)
  · rintro rfl
    exact hi.place i p hp

theorem stay (hi : SlabInv s B lists objs) (hp : onCache lists i p) (h : PageList) (q : ℕ) :
    q ∈ lists h ↔ (q ≠ p ∧ q ∈ lists h) ∨
      (q = p ∧ h = slabPlace (s.caches i) i (s.slabs (pageVaddr p))) := by
  by_cases e : q = p
  · subst e
    simpa using hi.place_iff hp h
  · simp [e]

theorem object_heads (hp : onCache lists i p) :
    .allocList (pageVaddr p) ∈ objectHeads lists ∧ .freeList (pageVaddr p) ∈ objectHeads lists :=
  ⟨⟨i, p, hp, .inl rfl⟩, ⟨i, p, hp, .inr rfl⟩⟩

theorem not_mem_of_page (hi : SlabInv s B lists objs) (hp : onCache lists i p) {x : ℕ}
    (h1 : pageVaddr p ≤ x) (h2 : x < pageVaddr p + pageSize)
    (ha : x ∉ objs (.allocList (pageVaddr p))) (hf : x ∉ objs (.freeList (pageVaddr p)))
    (h : SlabList) : x ∉ objs h := by
  intro hx
  obtain ⟨j, q, hq, hh⟩ := hi.rings.mem_heads hx
  have hr := hi.node_range hq (hh.imp (· ▸ hx) (· ▸ hx))
  have hlb : listHeadBytes = 8 := rfl
  obtain rfl := vaddr_inj (hi.page_lt hp) (hi.page_lt hq) ⟨h1, h2⟩ ⟨by omega, by omega⟩
  rcases hh with rfl | rfl
  exacts [ha hx, hf hx]

theorem allocNewObjectInPage_spec (hi : SlabInv s B lists objs) (hp : onCache lists i p)
    (hlt : (s.slabs (pageVaddr p)).allocNum + (s.slabs (pageVaddr p)).freeNum <
      (s.caches i).capacity) :
    let t := allocNewObjectInPage s i (pageVaddr p)
    ∃ objs', SlabInv t B lists objs' ∧ t.buddy = s.buddy ∧ t.caches = s.caches ∧
      t.slabs (pageVaddr p) = ⟨(s.slabs (pageVaddr p)).allocNum,
        (s.slabs (pageVaddr p)).freeNum + 1⟩ ∧
      ∀ v, objs' (.allocList v) = objs (.allocList v) := by
  intro t
  have hcl := hi.cache_lt hp
  have hc := (hi.slab i p hp).carved
  have hsize := (hi.shape i hcl).size
  have hlb : listHeadBytes = 8 := rfl
  have hhf := (object_heads hp).2
  have hprev := prev_of_getLast hi.rings hhf (hc.tail hlt)
  have ht : t = { s with
      buddy := { s.buddy with links := s.buddy.links }
      objects := listAddTail s.objects (.inr (pageVaddr p + slabHeadBytes +
        ((s.slabs (pageVaddr p)).allocNum + (s.slabs (pageVaddr p)).freeNum) * (s.caches i).size +
          (s.caches i).size)) (.inl (.freeList (pageVaddr p)))
      slabs := Function.update s.slabs (pageVaddr p) ⟨(s.slabs (pageVaddr p)).allocNum,
        (s.slabs (pageVaddr p)).freeNum + 1⟩ } := by
    simp only [t, allocNewObjectInPage, if_pos hlt, hprev, nodeAddr]
  obtain ⟨hna, hnf⟩ := hc.not_mem_next (by omega)
  have hbound := hi.slot_bounds hcl (Nat.succ_pos _) hlt
  rw [Nat.succ_mul] at hbound
  have hx := hi.not_mem_of_page hp (by omega) (by omega) hna hnf
  have ho := listAddTail_rings hi.rings hhf hx
  have hcarve := hc.carve hlt
  obtain ⟨h1, -⟩ := hi.update_page hp ⟨(s.slabs (pageVaddr p)).allocNum,
    (s.slabs (pageVaddr p)).freeNum + 1⟩ hi.buddy.rings (hi.stay hp) ho
    (fun v hv => ⟨by simp, by simp [hv]⟩) (by simpa using hcarve)
  rw [ht]
  exact ⟨_, h1, rfl, rfl, Function.update_self .., fun v => by simp⟩

theorem take_ready (hi : SlabInv s B lists objs) (hp : onCache lists i p) :
    let t := if (s.slabs (pageVaddr p)).freeNum = 1 then allocNewObjectInPage s i (pageVaddr p)
      else s
    ∃ objs', SlabInv t B lists objs' ∧ t.buddy = s.buddy ∧ t.caches = s.caches ∧
      (t.slabs (pageVaddr p)).allocNum = (s.slabs (pageVaddr p)).allocNum ∧
      ((t.slabs (pageVaddr p)).freeNum = 1 → (t.slabs (pageVaddr p)).allocNum +
        (t.slabs (pageVaddr p)).freeNum = (t.caches i).capacity) ∧
      ∀ v, objs' (.allocList v) = objs (.allocList v) := by
  intro t
  have hle := (hi.slab i p hp).carved.le
  by_cases h1 : (s.slabs (pageVaddr p)).freeNum = 1
  · by_cases hlt : (s.slabs (pageVaddr p)).allocNum + (s.slabs (pageVaddr p)).freeNum <
        (s.caches i).capacity
    · obtain ⟨objs', g1, g2, g3, g4, g5⟩ := hi.allocNewObjectInPage_spec hp hlt
      have ht : t = allocNewObjectInPage s i (pageVaddr p) := if_pos h1
      rw [ht]
      exact ⟨objs', g1, g2, g3, by rw [g4], by rw [g4]; simp only; omega, g5⟩
    · have ht : t = s := by simp only [t, if_pos h1, allocNewObjectInPage, if_neg hlt]
      rw [ht]
      exact ⟨objs, hi, rfl, rfl, rfl, fun _ => by omega, fun _ => rfl⟩
  · have ht : t = s := if_neg h1
    rw [ht]
    exact ⟨objs, hi, rfl, rfl, rfl, fun h => absurd h h1, fun _ => rfl⟩

theorem not_live_of_free (hi : SlabInv s B lists objs) (hp : onCache lists i p) {x : ℕ}
    (hx : x + kmemCacheSize i ∉ objs (.allocList (pageVaddr p)))
    (h1 : pageVaddr p + slabHeadBytes + listHeadBytes ≤ x)
    (h2 : x + listHeadBytes ≤ pageVaddr p + pageSize) : ¬ isLive s B lists objs x := by
  have hlb : listHeadBytes = 8 := rfl
  rintro (⟨j, q, hq, hy⟩ | ⟨b, hb, -, rfl⟩)
  · have hr := hi.node_range hq (.inl hy)
    obtain rfl := vaddr_inj (hi.page_lt hp) (hi.page_lt hq) (x := x) ⟨by omega, by omega⟩
      ⟨by omega, by omega⟩
    obtain rfl := hi.cache_unique hp hq
    exact hx hy
  · have hbm := (hi.buddy.tiling.mem_range hb.1 (Block.head_mem _)).2.trans_le hi.machine
    rw [pageVaddr_eq (hi.page_lt hp), pageVaddr_eq hbm, hlb] at *
    simp only [slabHeadBytes, pageSize] at h1 h2
    omega

theorem object_move (hi : SlabInv s B lists objs) {h₀ h₁ : SlabList} {x : ℕ}
    (hx : x ∈ objs h₀) (hh : h₁ ∈ objectHeads lists) (hne : h₀ ≠ h₁) :
    Rings (objectHeads lists) (listAdd (listDel s.objects (.inr x)) (.inr x) (.inl h₁))
      (Function.update (Function.update objs h₀ ((objs h₀).erase x)) h₁ (x :: objs h₁)) := by
  have h1 := listAdd_rings (listDel_rings hi.rings hx) hh (hi.rings.not_mem_erase hx)
  rwa [Function.update_of_ne hne.symm] at h1

theorem page_move (hi : SlabInv s B lists objs) (hp : onCache lists i p) (slab : SlabHead) :
    ∃ lists', Rings slabHeads (listAdd (listDel s.buddy.links (.inr p)) (.inr p)
        (.inl (slabPlace (s.caches i) i slab))) lists' ∧
      ∀ h q, q ∈ lists' h ↔
        (q ≠ p ∧ q ∈ lists h) ∨ (q = p ∧ h = slabPlace (s.caches i) i slab) :=
  listMove_rings hi.buddy.rings (hi.place i p hp) (slabPlace_mem (hi.cache_lt hp) _ _)

theorem kmemCacheAlloc_page (hi : SlabInv s B lists objs) (hp : onCache lists i p)
    (hfull : (s.slabs (pageVaddr p)).allocNum ≠ (s.caches i).capacity)
    {r : SlabSys × Option ℕ} (hr : r = allocObject s i (pageVaddr p)) :
    let t :=
      if slabIsFull (r.1.caches i) (r.1.slabs (pageVaddr p)) then
        (moveSlab r.1 p (.slabFull i), r.2)
      else if slabIsEmpty (s.slabs (pageVaddr p)) then (moveSlab r.1 p (.slabPartial i), r.2)
      else r
    ∃ objp lists' objs', t.2 = some objp ∧ SlabInv t.1 B lists' objs' ∧
      ¬ isLive s B lists objs objp ∧ liveObject lists' objs' i p objp ∧
      LiveFrame s t.1 B B lists lists' objs objs' i none ∅ := by
  intro t
  obtain ⟨objs₁, hi₁, hb₁, hc₁, ha₁, hlast, hal⟩ := hi.take_ready hp
  set u := if (s.slabs (pageVaddr p)).freeNum = 1 then allocNewObjectInPage s i (pageVaddr p)
    else s with hu
  have hfull₁ : (u.slabs (pageVaddr p)).allocNum ≠ (u.caches i).capacity := by
    rw [ha₁, hc₁]
    exact hfull
  have hcl := hi.cache_lt hp
  have hcv := (hi₁.slab i p hp).carved
  obtain ⟨x, rest, hfrees⟩ := List.exists_cons_of_ne_nil (hcv.freeNum_pos hfull₁)
  obtain ⟨hha, hhf⟩ := object_heads hp
  have hnext := next_of_cons hi₁.rings hhf hfrees
  have hx : x ∈ objs₁ (.freeList (pageVaddr p)) := by simp [hfrees]
  have hfree0 : (u.slabs (pageVaddr p)).freeNum ≠ 0 := by
    rw [hcv.freeNum, hfrees]
    simp
  set slab : SlabHead := ⟨(u.slabs (pageVaddr p)).allocNum + 1,
    (u.slabs (pageVaddr p)).freeNum - 1⟩ with hslab
  have hshape := hi₁.shape i hcl
  have hrange := hi₁.node_range hp (.inr hx)
  have hobj : x - (u.caches i).objectSize + kmemCacheSize i = x := by
    rw [hshape.objectSize]
    omega
  have hr' : r = ({ u with
      objects := listAdd (listDel u.objects (.inr x)) (.inr x) (.inl (.allocList (pageVaddr p)))
      slabs := Function.update u.slabs (pageVaddr p) slab }, some (x - (u.caches i).objectSize)) := by
    rw [hr, allocObject]
    simp only [← hu, if_neg hfree0, hnext, nodeAddr, hslab]
  have ho := hi₁.object_move hx hha (by simp)
  rw [hfrees, List.erase_cons_head] at ho
  have hcarve : Carved (u.caches i) (pageVaddr p) slab (x :: objs₁ (.allocList (pageVaddr p)))
      rest := by
    rw [hfrees] at hcv
    exact hcv.take hlast
  -- the page ends on the list of its new fill state in all three branches
  obtain ⟨links, lists', hl, hmem, ht⟩ : ∃ links lists', Rings slabHeads links lists' ∧
      (∀ h q, q ∈ lists' h ↔ (q ≠ p ∧ q ∈ lists h) ∨
        (q = p ∧ h = slabPlace (u.caches i) i slab)) ∧
      t = ({ u with
        buddy := { u.buddy with links := links }
        objects := listAdd (listDel u.objects (.inr x)) (.inr x) (.inl (.allocList (pageVaddr p)))
        slabs := Function.update u.slabs (pageVaddr p) slab },
        some (x - (u.caches i).objectSize)) := by
    obtain ⟨lists', h1, h2⟩ := hi₁.page_move hp slab
    by_cases hf : slab.allocNum = (u.caches i).capacity
    · have hpl : slabPlace (u.caches i) i slab = .slabFull i := if_pos hf
      refine ⟨_, lists', h1, h2, ?_⟩
      simp only [t, hr', slabIsFull, Function.update_self, hf, beq_self_eq_true, if_true, hpl]
      rfl
    · have h0 : slab.allocNum ≠ 0 := Nat.succ_ne_zero _
      have hpl : slabPlace (u.caches i) i slab = .slabPartial i := by
        rw [slabPlace, if_neg hf, if_neg h0]
      by_cases he : (s.slabs (pageVaddr p)).allocNum = 0
      · refine ⟨_, lists', h1, h2, ?_⟩
        simp only [t, hr', slabIsFull, Function.update_self, beq_iff_eq, hf, if_false, slabIsEmpty,
          he, if_true, hpl]
        rfl
      · refine ⟨u.buddy.links, lists, hi₁.buddy.rings, ?_, ?_⟩
        · have hsame : slabPlace (u.caches i) i (u.slabs (pageVaddr p)) = .slabPartial i := by
            rw [slabPlace, if_neg hfull₁, if_neg (ha₁ ▸ he)]
          rw [hpl, ← hsame]
          exact hi₁.stay hp
        · simp only [t, hr', slabIsFull, Function.update_self, beq_iff_eq, hf, if_false,
            slabIsEmpty, he]
  obtain ⟨h1, h2⟩ := hi₁.update_page hp slab hl hmem ho (fun v hv => by simp [hv])
    (by simpa using hcarve)
  rw [ht]
  refine ⟨_, lists', _, rfl, h1, hi.not_live_of_free hp ?_ ?_ ?_, ⟨(h2 i p).mpr hp, ?_⟩,
    fun j q => by simp [h2], fun j q y _ hy => ⟨(h2 j q).mpr hy.1, ?_⟩, fun c y _ hc => ?_,
    fun q hq => ?_, by simp [hb₁], by simp [hb₁]⟩
  · rw [hobj, ← hal]
    exact fun hxa => by simpa using hi₁.rings.disjoint _ _ x hxa hx
  · omega
  · omega
  · simp [hobj]
  · by_cases e : pageVaddr q = pageVaddr p
    · simpa [e, hal] using .inr (e ▸ hy.2)
    · simpa [e, hal] using hy.2
  · rwa [liveBlock, ← hb₁] at hc
  · rw [← hb₁]
    exact .inl hq

theorem kmemCacheAlloc_spec (hi : SlabInv s B lists objs) (hlt : i < kmemCacheNum) {t : SlabSys}
    {r : Option ℕ} (h : kmemCacheAlloc s i = (t, r)) :
    (r = none ∧ t = s ∧ Exhausted s B lists i) ∨
      ∃ objp p C lists' objs', r = some objp ∧ SlabInv t C lists' objs' ∧
        ¬ isLive s B lists objs objp ∧ liveObject lists' objs' i p objp ∧
        LiveFrame s t B C lists lists' objs objs' i (obtainedPage s i) ∅ := by
  rw [kmemCacheAlloc] at h
  cases hpage : kmemCachePage s i with
  | mk u o =>
    rcases hi.kmemCachePage_spec hlt hpage with
      ⟨rfl, rfl, he⟩ | ⟨p, C, lists₁, objs₁, rfl, h1, h2, h3, h4⟩
    · simp only [hpage, Prod.mk.injEq] at h
      exact .inl ⟨h.2.symm, h.1.symm, he⟩
    · have hv : (u.buddy.pages p).virtual = pageVaddr p := by rw [(h1.slab i p h2).page]
      simp only [hpage, hv] at h
      obtain ⟨objp, lists', objs', g1, g2, g3, g4, g5⟩ := h1.kmemCacheAlloc_page h2 h3 rfl
      rw [h] at g1 g2 g5
      exact .inr ⟨objp, p, C, lists', objs', g1, g2, fun hl => g3 (h4.survive.isLive hl (by simp)), g4,
        h4.trans g5⟩

theorem object_addr (hi : SlabInv s B lists objs) {x : ℕ} (hx : liveObject lists objs i p x) :
    lowerAlign x pageSize = pageVaddr p ∧ getPageBySlab (lowerAlign x pageSize) = p := by
  have hr := hi.node_range hx.1 (.inl hx.2)
  have hlt := hi.page_lt hx.1
  have h1 : lowerAlign x pageSize = pageVaddr p :=
    lowerAlign_page hlt (by omega) (by simp only [pageSize, listHeadBytes] at hr; omega)
  exact ⟨h1, by rw [h1, getPageBySlab_eq hlt]⟩

theorem kmemCacheFree_spec (hi : SlabInv s B lists objs) {x : ℕ}
    (hx : liveObject lists objs i p x) :
    ∃ lists' objs', SlabInv (kmemCacheFree s i x) B lists' objs' ∧
      LiveFrame s (kmemCacheFree s i x) B B lists lists' objs objs' i none {x} := by
  obtain ⟨hv, hpg⟩ := hi.object_addr hx
  obtain ⟨hp, hmem⟩ := hx
  have hcl := hi.cache_lt hp
  have hcv := (hi.slab i p hp).carved
  obtain ⟨hha, hhf⟩ := object_heads hp
  have hobj := (hi.shape i hcl).objectSize
  set slab : SlabHead := ⟨(s.slabs (pageVaddr p)).allocNum - 1,
    (s.slabs (pageVaddr p)).freeNum + 1⟩ with hslab
  have ho := hi.object_move hmem hhf (by simp)
  have hcarve := hcv.give hmem (hi.rings.nodup _)
  have hpos : 0 < (s.slabs (pageVaddr p)).allocNum := by
    rw [hcv.allocNum]
    exact List.length_pos_of_mem hmem
  have hnotfull : slab.allocNum ≠ (s.caches i).capacity := by
    have := hcv.le
    simp only [hslab]
    omega
  -- the page ends on the list of its new fill state in all three branches
  obtain ⟨links, lists', hl, hm, ht⟩ : ∃ links lists', Rings slabHeads links lists' ∧
      (∀ h q, q ∈ lists' h ↔ (q ≠ p ∧ q ∈ lists h) ∨
        (q = p ∧ h = slabPlace (s.caches i) i slab)) ∧
      kmemCacheFree s i x = { s with
        buddy := { s.buddy with links := links }
        objects := listAdd (listDel s.objects (.inr (x + kmemCacheSize i)))
          (.inr (x + kmemCacheSize i)) (.inl (.freeList (pageVaddr p)))
        slabs := Function.update s.slabs (pageVaddr p) slab } := by
    obtain ⟨lists', h1, h2⟩ := hi.page_move hp slab
    by_cases h0 : (s.slabs (pageVaddr p)).allocNum - 1 = 0
    · have hpl : slabPlace (s.caches i) i slab = .slabFree i := by
        rw [slabPlace, if_neg hnotfull, if_pos h0]
      refine ⟨_, lists', h1, h2, ?_⟩
      simp only [kmemCacheFree, hv, hobj, if_pos h0, hpl, getPageBySlab_eq (hi.page_lt hp)]
      rfl
    · have hpl : slabPlace (s.caches i) i slab = .slabPartial i := by
        rw [slabPlace, if_neg hnotfull, if_neg h0]
      by_cases hf : (s.slabs (pageVaddr p)).allocNum = (s.caches i).capacity
      · refine ⟨_, lists', h1, h2, ?_⟩
        simp only [kmemCacheFree, hv, hobj, if_neg h0, slabIsFull, beq_iff_eq, if_pos hf, hpl,
          getPageBySlab_eq (hi.page_lt hp)]
        rfl
      · refine ⟨s.buddy.links, lists, hi.buddy.rings, ?_, ?_⟩
        · have hsame : slabPlace (s.caches i) i (s.slabs (pageVaddr p)) = .slabPartial i := by
            rw [slabPlace, if_neg hf, if_neg hpos.ne']
          rw [hpl, ← hsame]
          exact hi.stay hp
        · simp only [kmemCacheFree, hv, hobj, if_neg h0, slabIsFull, beq_iff_eq, if_neg hf]
          rfl
  obtain ⟨h1, h2⟩ := hi.update_page hp slab hl hm ho (fun v hv => by simp [hv])
    (by simpa using hcarve)
  rw [ht]
  refine ⟨lists', _, h1, fun j q => by simp [h2],
    fun j q y hne hy => ⟨(h2 j q).mpr hy.1, ?_⟩, fun _ _ _ => id, fun _ => .inl, rfl, rfl⟩
  by_cases e : pageVaddr q = pageVaddr p
  · obtain rfl : q = p := by
      have h3 := e
      rw [pageVaddr_eq (hi.page_lt hy.1), pageVaddr_eq (hi.page_lt hp)] at h3
      omega
    obtain rfl := hi.cache_unique hp hy.1
    have hyx : y + kmemCacheSize i ≠ x + kmemCacheSize i := fun h => hne (Nat.add_right_cancel h)
    simpa using (List.mem_erase_of_ne hyx).mpr hy.2
  · simpa [e] using hy.2

theorem block_lt (hi : SlabInv s B lists objs) {b : Block} (hb : b ∈ allocBlocks s.buddy B) :
    b.head < machinePageNum :=
  (hi.buddy.tiling.mem_range hb.1 (Block.head_mem _)).2.trans_le hi.machine

theorem large_alloc (hi : SlabInv s B lists objs) {k : ℕ} {b : BuddySys}
    (h : __allocPages s.buddy k buddyAlloced = (b, some p)) :
    ∃ C lists', SlabInv { s with buddy := b } C lists' objs ∧
      Survive s { s with buddy := b } B C lists lists' objs objs ∅ ∧
      ¬ isLive s B lists objs (pageVaddr p) ∧
      liveBlock { s with buddy := b } C ⟨p, k⟩ (pageVaddr p) := by
  obtain ⟨C, lists', h1, -, h3, h4, h5, h6, h7, -, h9⟩ := hi.buddy.allocPages_some (by decide) h
  have hi' : SlabInv { s with buddy := b } C lists' objs :=
    hi.with_buddy h1 h9 h7 fun j q hq =>
      ⟨(h3 _).mpr (.inr (hi.slab j q hq).block), h5 _ (hi.slab j q hq).block⟩
  have hnew : ⟨p, k⟩ ∈ allocBlocks b C := (h3 _).mpr (.inl rfl)
  have hlt : p < machinePageNum := hi'.block_lt hnew
  refine ⟨C, lists', hi', ⟨?_, ?_, h9⟩, ?_, hnew, h6, rfl⟩
  · rintro j q x - ⟨hq, hx⟩
    exact ⟨(onCache_congr h7).mpr hq, hx⟩
  · rintro c x - ⟨hc, hu, hx⟩
    refine ⟨(h3 c).mpr (.inr hc), ?_, hx⟩
    rwa [← h5 c hc] at hu
  · rintro (⟨j, q, hq, hx⟩ | ⟨c, hc, -, hx⟩)
    · have hr := hi.node_range hq (.inl hx)
      rw [pageVaddr_eq hlt, pageVaddr_eq (hi.page_lt hq)] at hr
      simp only [slabHeadBytes, listHeadBytes, pageSize] at hr
      omega
    · rw [pageVaddr_eq hlt, pageVaddr_eq (hi.block_lt hc)] at hx
      have he := h1.tiling.head_unique ((h3 c).mpr (.inr hc)).1 hnew.1 (by simp only; omega)
      exact h4 (he ▸ hc)

theorem block_addr {x : ℕ} (hp : p < machinePageNum) (hx : x = pageVaddr p) :
    getPageBySlab (lowerAlign x pageSize) = p ∧ getPgnByPaddr (getKernelPaddr x) = p ∧
      getLowBits (getKernelPaddr x) 12 = 0 := by
  subst hx
  have hpg := getPageBySlab_eq hp
  refine ⟨by rw [lowerAlign_page hp le_rfl (by omega), hpg], hpg, ?_⟩
  rw [getLowBits, if_neg (by decide), Nat.and_two_pow_sub_one_eq_mod, getKernelPaddr_eq,
    pageVaddr_eq hp]
  omega

theorem free_block (hi : SlabInv s B lists objs) {b : Block} (hb : b ∈ allocBlocks s.buddy B)
    (hout : ∀ h, b.head ∉ lists h) :
    let t := { s with buddy := __freePages s.buddy b.head }
    ∃ C lists', SlabInv t C lists' objs ∧
      (∀ h, (∀ k, h ≠ .freelist k) → lists' h = lists h) ∧
      (∀ c ∈ allocBlocks s.buddy B, c ≠ b → c ∈ allocBlocks t.buddy C ∧
        t.buddy.pages c.head = s.buddy.pages c.head) ∧
      t.buddy.startPfn = s.buddy.startPfn ∧ t.buddy.pageNum = s.buddy.pageNum := by
  intro t
  obtain ⟨C, lists', h1, h2⟩ := hi.buddy.freePages_spec hb hout
  have hkeep : ∀ c ∈ allocBlocks s.buddy B, c ≠ b → c ∈ allocBlocks t.buddy C ∧
      t.buddy.pages c.head = s.buddy.pages c.head := by
    intro c hc hne
    have h3 := h2.alloc c
    simp only [Set.mem_sdiff, Set.mem_empty_iff_false, not_false_eq_true, and_true,
      Set.mem_singleton_iff] at h3
    exact ⟨h3.mpr ⟨hc, hne⟩, h2.pages c ⟨hc, hne⟩⟩
  refine ⟨C, lists', hi.with_buddy h1 h2.zone h2.lists fun j q hq => ?_, h2.lists, hkeep, h2.zone⟩
  refine hkeep _ (hi.slab j q hq).block ?_
  rintro rfl
  rcases hq with hq | hq | hq <;> exact hout _ hq

theorem large_free (hi : SlabInv s B lists objs) {b : Block} {x : ℕ} (hx : liveBlock s B b x) :
    ∃ C lists', SlabInv (kfree s x) C lists' objs ∧
      Survive s (kfree s x) B C lists lists' objs objs {x} := by
  obtain ⟨hb, hu, hx⟩ := hx
  obtain ⟨ha1, ha2, ha3⟩ := block_addr (hi.block_lt hb) hx
  have hslab : (s.buddy.pages b.head).usedInfo ≠ buddySlab := by
    rw [hu]
    decide
  have hk : kfree s x = { s with buddy := __freePages s.buddy b.head } := by
    simp only [kfree, ha1, if_neg hslab, freePages, ha3, if_true, ha2]
  obtain ⟨C, lists', h1, h2, h3, h4⟩ := hi.free_block hb (hi.not_listed hb hslab)
  rw [hk]
  refine ⟨C, lists', h1, ?_, ?_, h4⟩
  · rintro j q y - ⟨hq, hy⟩
    exact ⟨(onCache_congr h2).mpr hq, hy⟩
  · rintro c y hne ⟨hc, huc, hy⟩
    obtain ⟨g1, g2⟩ := h3 c hc fun e => hne (by rw [hy, hx, e]; rfl)
    refine ⟨g1, ?_, hy⟩
    rwa [← g2] at huc

theorem remove_page (hi : SlabInv s B lists objs) (hp : onCache lists i p)
    (hcpu : (s.caches i).cpuPage ≠ some p) :
    ∃ lists' objs',
      SlabInv { s with buddy := { s.buddy with links := listDel s.buddy.links (.inr p) } } B
        lists' objs' ∧ (∀ h, p ∉ lists' h) ∧
      (∀ j q, onCache lists' j q ↔ onCache lists j q ∧ q ≠ p) ∧
      ∀ v, v ≠ pageVaddr p → objs' (.allocList v) = objs (.allocList v) := by
  have hplace := hi.place i p hp
  have hmem := hi.buddy.rings.mem_update_erase hplace
  have hl := listDel_rings hi.buddy.rings hplace
  set lists' := Function.update lists (slabPlace (s.caches i) i (s.slabs (pageVaddr p)))
    ((lists (slabPlace (s.caches i) i (s.slabs (pageVaddr p)))).erase p)
  have hon : ∀ j q, onCache lists' j q ↔ onCache lists j q ∧ q ≠ p := by
    intro j q
    simp only [onCache, hmem]
    tauto
  have hv : ∀ j q, onCache lists' j q → pageVaddr q ≠ pageVaddr p := by
    intro j q hq he
    obtain ⟨hq, hne⟩ := (hon j q).mp hq
    rw [pageVaddr_eq (hi.page_lt hq), pageVaddr_eq (hi.page_lt hp)] at he
    omega
  have ho := (hi.rings.remove_head (.allocList (pageVaddr p))).remove_head (.freeList (pageVaddr p))
  have hheads : objectHeads lists' =
      (objectHeads lists \ {.allocList (pageVaddr p)}) \ {.freeList (pageVaddr p)} := by
    ext h
    simp only [objectHeads, Set.mem_sdiff, Set.mem_ofPred_eq, Set.mem_singleton_iff]
    constructor
    · rintro ⟨j, q, hq, hh⟩
      have hne := hv j q hq
      refine ⟨⟨⟨j, q, ((hon j q).mp hq).1, hh⟩, ?_⟩, ?_⟩ <;> rcases hh with rfl | rfl <;> simp [hne]
    · rintro ⟨⟨⟨j, q, hq, hh⟩, h1⟩, h2⟩
      refine ⟨j, q, (hon j q).mpr ⟨hq, ?_⟩, hh⟩
      rintro rfl
      exact hh.elim h1 h2
  have hobjs : ∀ v, v ≠ pageVaddr p →
      (Function.update (Function.update objs (.allocList (pageVaddr p)) [])
          (.freeList (pageVaddr p)) [] (.allocList v) = objs (.allocList v)) ∧
        Function.update (Function.update objs (.allocList (pageVaddr p)) [])
          (.freeList (pageVaddr p)) [] (.freeList v) = objs (.freeList v) := by
    intro v hv
    simp [hv]
  refine ⟨lists', _, ⟨hi.buddy.relink hl hi.buddy.heads (fun k q => ?_) (fun h q hq => ?_),
    hi.machine, hi.shape, hheads ▸ ho, fun j q hq => ?_, fun j q hq => ?_, fun j hj q hq => ?_⟩,
    fun h => ?_, hon, fun v hv => (hobjs v hv).1⟩
  · rw [hmem]
    refine and_iff_right_of_imp fun hq => ?_
    rintro rfl
    exact hi.buddy.not_mem_of_alloc (hi.slab i q hp).block k hq
  · exact hi.buddy.listed h q ((hmem h q).mp hq).2
  · have hs := hi.slab j q ((hon j q).mp hq).1
    obtain ⟨h1, h2⟩ := hobjs _ (hv j q hq)
    exact ⟨hs.block, hs.page, by rw [h1, h2]; exact hs.carved⟩
  · obtain ⟨hq, hne⟩ := (hon j q).mp hq
    exact (hmem _ q).mpr ⟨hne, hi.place j q hq⟩
  · refine (hon j q).mpr ⟨hi.cpu j hj q hq, ?_⟩
    rintro rfl
    obtain rfl := hi.cache_unique hp (hi.cpu j hj q hq)
    exact hcpu hq
  · exact fun h' => ((hmem h p).mp h').1 rfl

theorem kmemCacheFreePage_spec (hi : SlabInv s B lists objs) (hp : onCache lists i p)
    (hempty : (s.slabs (pageVaddr p)).allocNum = 0) (hcpu : (s.caches i).cpuPage ≠ some p) :
    ∃ C lists' objs', SlabInv (kmemCacheFreePage s (pageVaddr p)) C lists' objs' ∧
      (∀ j q, onCache lists' j q ↔ onCache lists j q ∧ q ≠ p) ∧
      ∀ j q x, liveObject lists objs j q x → liveObject lists' objs' j q x := by
  obtain ⟨lists₁, objs', h1, h2, h3, h4⟩ := hi.remove_page hp hcpu
  obtain ⟨C, lists', h5, h6, -⟩ := h1.free_block (b := ⟨p, 0⟩) (hi.slab i p hp).block h2
  have hk : kmemCacheFreePage s (pageVaddr p) = { s with
      buddy := __freePages { s.buddy with links := listDel s.buddy.links (.inr p) } p } := by
    simp only [kmemCacheFreePage, hempty, ne_eq, not_true_eq_false, if_false,
      getPageBySlab_eq (hi.page_lt hp)]
  have hon : ∀ j q, onCache lists' j q ↔ onCache lists j q ∧ q ≠ p :=
    fun j q => (onCache_congr h6).trans (h3 j q)
  rw [hk]
  refine ⟨C, lists', objs', h5, hon, ?_⟩
  rintro j q x ⟨hq, hx⟩
  have hne : pageVaddr q ≠ pageVaddr p := by
    intro he
    have hlen := (hi.slab i p hp).carved.allocNum
    rw [hempty, ← he] at hlen
    simp [List.length_eq_zero_iff.mp hlen.symm] at hx
  refine ⟨(hon j q).mpr ⟨hq, fun e => hne (by rw [e])⟩, ?_⟩
  rw [h4 _ hne]
  exact hx

theorem kfree_spec (hi : SlabInv s B lists objs) {x : ℕ} (hx : isLive s B lists objs x) :
    ∃ C lists' objs', SlabInv (kfree s x) C lists' objs' ∧
      Survive s (kfree s x) B C lists lists' objs objs' {x} := by
  rcases hx with ⟨i, p, hx⟩ | ⟨b, hb⟩
  · obtain ⟨-, hpg⟩ := hi.object_addr hx
    have hk : kfree s x = kmemCacheFree s i x := by
      simp only [kfree, hpg, (hi.slab i p hx.1).page, if_true]
    rw [hk]
    obtain ⟨lists', objs', h1, h2⟩ := hi.kmemCacheFree_spec hx
    exact ⟨B, lists', objs', h1, h2.survive⟩
  · obtain ⟨C, lists', h1, h2⟩ := hi.large_free hb
    exact ⟨C, lists', objs, h1, h2⟩

theorem kmalloc_spec (hi : SlabInv s B lists objs) {size : ℕ} {t : SlabSys} {r : Option ℕ}
    (h : kmalloc s size = (t, r)) :
    ∃ C lists' objs', SlabInv t C lists' objs' ∧
      Survive s t B C lists lists' objs objs' ∅ ∧
      ∀ objp, r = some objp → ¬ isLive s B lists objs objp ∧ isLive t C lists' objs' objp := by
  rw [kmalloc] at h
  by_cases hsize : size ≤ kmemCacheSize (kmemCacheNum - 1)
  · rw [if_pos hsize] at h
    cases hf : (List.range kmemCacheNum).find? fun i => size ≤ kmemCacheSize i with
    | none =>
      simp only [hf, Prod.mk.injEq] at h
      obtain ⟨rfl, rfl⟩ := h
      exact ⟨B, lists, objs, hi, .refl .., by simp⟩
    | some i =>
      have hlt : i < kmemCacheNum := List.mem_range.mp (List.mem_of_find?_eq_some hf)
      simp only [hf] at h
      rcases hi.kmemCacheAlloc_spec hlt h with
        ⟨rfl, rfl, -⟩ | ⟨objp, p, C, lists', objs', rfl, h1, h2, h3, h4⟩
      · exact ⟨B, lists, objs, hi, .refl .., by simp⟩
      · refine ⟨C, lists', objs', h1, h4.survive, ?_⟩
        rintro _ ⟨rfl⟩
        exact ⟨h2, .inl ⟨i, p, h3⟩⟩
  · rw [if_neg hsize, allocPages] at h
    generalize levelFor (upperAlign size (1 <<< pageShift) >>> pageShift) 32 1 0 = k at h
    cases hr : __allocPages s.buddy k buddyAlloced with
    | mk b o =>
      simp only [hr, Prod.mk.injEq] at h
      obtain ⟨rfl, rfl⟩ := h
      cases o with
      | none =>
        obtain rfl := hi.buddy.allocPages_none_eq hr
        exact ⟨B, lists, objs, hi, .refl .., by simp⟩
      | some p =>
        obtain ⟨C, lists', h1, h2, h3, h4⟩ := hi.large_alloc hr
        refine ⟨C, lists', objs, h1, h2, fun objp ho => ?_⟩
        obtain ⟨a, ha, rfl⟩ := Option.map_eq_some_iff.mp ho
        obtain rfl := Option.some.inj (Option.filter_eq_some_iff.mp ha).1
        exact ⟨h3, .inr ⟨_, h4⟩⟩

end SlabInv

end OurOS