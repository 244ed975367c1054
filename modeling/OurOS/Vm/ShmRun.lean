import OurOS.Vm.Shm

set_option linter.style.nameCheck false

namespace OurOS

open AlignedBlocks

structure ShmCall where
  key : ℕ
  size : ℕ
  seg : ShmStruct
deriving DecidableEq, Repr

/-- `pages` are the physical addresses that `alloc_pages` has handed out to the rest of the kernel,
`calls` the calls of `shmget` that have succeeded, with the segment found at the time. -/
structure SegTrace where
  sys : ShmSys
  pages : List ℕ
  calls : List ShmCall

def SegTrace.kernel (t : SegTrace) : SlabSys := t.sys.kernel.sys

def SegTrace.owned (t : SegTrace) : List ℕ := t.sys.kernel.live ++ t.pages.map getKernelVaddr

inductive SegOp where
  | kernel (op : SlabOp)
  | allocPages (size : ℕ)
  | freePages (paddr : ℕ)
  | shmget (key : ℤ) (size uninit : ℕ)
deriving DecidableEq, Repr

def callOf (s : ShmSys) (shmid : ℤ) (size : ℕ) : List ShmCall :=
  if shmid < 0 then []
  else ((s.shmPool shmid.toNat).map fun seg => ⟨shmid.toNat, size, seg⟩).toList

def segStep (t : SegTrace) : SegOp → Option SegTrace
  | .kernel op =>
    (slabStep t.sys.kernel op).map fun k => { t with sys := { t.sys with kernel := k } }
  | .allocPages size =>
    if size < uintRange then
      let r := allocPages t.kernel.buddy size
      some { t with sys := t.sys.setBuddy r.1, pages := (r.2.filter (· != 0)).toList ++ t.pages }
    else none
  | .freePages paddr =>
    if paddr ∈ t.pages then
      some { t with
        sys := t.sys.setBuddy (freePages t.kernel.buddy paddr), pages := t.pages.erase paddr }
    else none
  | .shmget key size uninit =>
    if size < uintRange then
      (shmget t.sys key size uninit).map fun r =>
        { t with sys := r.1, calls := callOf r.1 r.2 size ++ t.calls }
    else none

def segStart (kernel : SlabTrace) (mm : ℕ) : SegTrace := ⟨shmStart kernel mm, [], []⟩

def segFrames (seg : ShmStruct) : Set ℕ := Set.Ico seg.pfnStart (seg.pfnStart + seg.pfnNum)

/-- The segments are of the sizes that were asked for, they stay what they were when they were asked
for, no two share a frame, and the allocators have no frame of theirs to hand out. -/
structure SegsKept (t : SegTrace) : Prop where
  sized : ∀ c ∈ t.calls, c.size ≤ c.seg.pfnNum * pageSize
  same : ∀ c ∈ t.calls, t.sys.shmPool c.key = some c.seg
  disjoint : ∀ k l a b, t.sys.shmPool k = some a → t.sys.shmPool l = some b → k ≠ l →
    Disjoint (segFrames a) (segFrames b)
  free : ∀ k a, t.sys.shmPool k = some a → ∀ n ∈ segFrames a, ¬ isFreePage t.kernel.buddy n
  owned : ∀ k a, t.sys.shmPool k = some a → ∀ n ∈ segFrames a, ∀ x ∈ t.owned,
    Disjoint (memOf t.kernel x) (pageMem n)

/-- A later call asks for no more than the segment has; a first call for no more than the align-up
can take, unless no page is left. -/
def CallFits (t : SegTrace) : SegOp → Prop
  | .shmget key size _ => 0 ≤ key → key < maxShmNum →
    match t.sys.shmPool key.toNat with
    | some seg => size ≤ seg.pfnNum * pageSize
    | none => size + pageSize ≤ uintRange ∨ ∀ n, ¬ isFreePage t.kernel.buddy n
  | _ => True

structure SegTraceInv (t : SegTrace) (start : ℕ) (B : Set Block) (lists : PageList → List ℕ)
    (objs : SlabList → List ℕ) : Prop where
  kernel : SlabTraceInv ⟨t.kernel, t.owned⟩ B lists objs
  pages : ∀ paddr ∈ t.pages, ∃ p < machinePageNum, paddr = getPagePaddr p ∧
    ∃ b, liveBlock t.kernel B b (pageVaddr p)
  segs : ∀ k a, t.sys.shmPool k = some a → a.pfnStart < machinePageNum ∧
    HoldsBytes t.kernel B (pageVaddr a.pfnStart) (a.pfnNum * pageSize) ∧
      pageVaddr a.pfnStart ∉ t.owned
  inj : ∀ k l a b, t.sys.shmPool k = some a → t.sys.shmPool l = some b →
    a.pfnStart = b.pfnStart → k = l
  calls : ∀ c ∈ t.calls, t.sys.shmPool c.key = some c.seg
  zone : t.kernel.buddy.startPfn = start

def SegsInv (start : ℕ) (t : SegTrace) : Prop :=
  (∃ B lists objs, SegTraceInv t start B lists objs) ∧
    ∀ c ∈ t.calls, c.size ≤ c.seg.pfnNum * pageSize

section Inv

variable {t u : SegTrace} {start : ℕ} {B C : Set Block} {lists lists' : PageList → List ℕ}
  {objs objs' : SlabList → List ℕ}

theorem SlabTraceInv.perm {s : SlabSys} {l l' : List ℕ} (h : SlabTraceInv ⟨s, l⟩ B lists objs)
    (hp : l.Perm l') : SlabTraceInv ⟨s, l'⟩ B lists objs :=
  ⟨h.inv, hp.nodup_iff.mp h.nodup, fun x hx => h.live x (hp.mem_iff.mpr hx)⟩

theorem pageVaddr_inj {p q : ℕ} (hp : p < machinePageNum) (hq : q < machinePageNum)
    (h : pageVaddr p = pageVaddr q) : p = q := by
  rw [pageVaddr_eq hp, pageVaddr_eq hq] at h
  omega

theorem mem_pageMem (n : ℕ) : pageVaddr n ∈ pageMem n :=
  ⟨le_rfl, Nat.lt_add_of_pos_right (by decide)⟩

theorem SegTraceInv.frame (h : SegTraceInv t start B lists objs) {k n : ℕ} {a : ShmStruct}
    (ha : t.sys.shmPool k = some a) (hn : n ∈ segFrames a) :
    pageMem n ⊆ Set.Ico (pageVaddr a.pfnStart) (pageVaddr a.pfnStart + a.pfnNum * pageSize) := by
  obtain ⟨hlt, hblock, -⟩ := h.segs k a ha
  exact (h.kernel.inv.holds_page hlt hblock hn).2

theorem SegTraceInv.kept (h : SegTraceInv t start B lists objs)
    (hs : ∀ c ∈ t.calls, c.size ≤ c.seg.pfnNum * pageSize) : SegsKept t := by
  refine ⟨hs, h.calls, fun k l a b ha hb hne => ?_, fun k a ha n hn hfree => ?_,
    fun k a ha n hn x hx => ?_⟩
  · obtain ⟨ha1, ha2, -⟩ := h.segs k a ha
    obtain ⟨hb1, hb2, -⟩ := h.segs l b hb
    have hstart : pageVaddr a.pfnStart ≠ pageVaddr b.pfnStart :=
      fun e => hne (h.inj k l a b ha hb (pageVaddr_inj ha1 hb1 e))
    rw [Set.disjoint_left]
    intro n hna hnb
    exact h.kernel.inv.holds_disjoint ha2 hb2 hstart (h.frame ha hna (mem_pageMem n))
      (h.frame hb hnb (mem_pageMem n))
  · obtain ⟨-, hblock, -⟩ := h.segs k a ha
    have hd := h.kernel.inv.live_free hblock.isLive hfree
    exact Set.disjoint_left.mp hd (h.kernel.inv.holds_mem hblock (h.frame ha hn (mem_pageMem n)))
      (mem_pageMem n)
  · obtain ⟨-, hblock, hout⟩ := h.segs k a ha
    have hne : pageVaddr a.pfnStart ≠ x := fun e => hout (e ▸ hx)
    have hd := h.kernel.inv.holds_apart hblock (h.kernel.live x hx) hne
    exact (hd.mono_left (h.frame ha hn)).symm

theorem SegTraceInv.others (h : SegTraceInv t start B lists objs)
    (hpool : u.sys.shmPool = t.sys.shmPool) (hcalls : u.calls = t.calls)
    (hk : SlabTraceInv ⟨u.kernel, u.owned⟩ C lists' objs')
    (hs : Survive t.kernel u.kernel B C lists lists' objs objs' {y | y ∈ t.owned ∧ y ∉ u.owned})
    (hl : ∀ y ∈ u.owned, y ∈ t.owned ∨ ¬ isLive t.kernel B lists objs y)
    (hp : ∀ paddr ∈ u.pages, paddr ∈ t.pages ∨ ∃ p < machinePageNum, paddr = getPagePaddr p ∧
      ∃ b, liveBlock u.kernel C b (pageVaddr p)) : SegTraceInv u start C lists' objs' := by
  refine ⟨hk, fun paddr hm => ?_, fun k a ha => ?_, hpool ▸ h.inj, hcalls ▸ hpool ▸ h.calls,
    hs.zone.1.trans h.zone⟩
  · rcases hp paddr hm with hold | hnew
    · obtain ⟨p, hlt, rfl, b, hb⟩ := h.pages paddr hold
      have hown : pageVaddr p ∈ u.owned := List.mem_append_right _ (List.mem_map_of_mem hm)
      exact ⟨p, hlt, rfl, b, hs.blocks b _ (fun hd => hd.2 hown) hb⟩
    · exact hnew
  · rw [hpool] at ha
    obtain ⟨hlt, hblock, hout⟩ := h.segs k a ha
    obtain ⟨h1, h2⟩ := HoldsBytes.slabStep (k := ⟨t.kernel, t.owned⟩) (l := ⟨u.kernel, u.owned⟩)
      hblock hs hl hout
    exact ⟨hlt, h1, h2⟩

theorem SegTraceInv.kernelStep (h : SegTraceInv t start B lists objs) {op : SlabOp} {k : SlabTrace}
    (hk : slabStep t.sys.kernel op = some k) :
    ∃ C lists' objs', SegTraceInv { t with sys := { t.sys with kernel := k } } start C lists' objs' := by
  have hstep : slabStep ⟨t.kernel, t.owned⟩ op =
      some ⟨k.sys, k.live ++ t.pages.map getKernelVaddr⟩ := by
    cases op with
    | kmalloc size =>
      obtain rfl := Option.some.inj hk
      exact congrArg some (congrArg (SlabTrace.mk _) (List.append_assoc ..).symm)
    | kfree objp =>
      obtain ⟨hm, hk⟩ := Option.ite_none_right_eq_some.mp hk
      obtain rfl := Option.some.inj hk
      refine (if_pos (List.mem_append_left _ hm)).trans ?_
      exact congrArg some (congrArg (SlabTrace.mk _) (List.erase_append_left _ hm))
  obtain ⟨C, lists', objs', h1, h2, h3⟩ := slabStep_survive h.kernel hstep
  exact ⟨C, lists', objs', h.others rfl rfl h1 h2 h3 fun _ => .inl⟩

theorem SegTraceInv.alloc (h : SegTraceInv t start B lists objs) {size : ℕ} {b : BuddySys}
    {o : Option ℕ} (ha : allocPages t.kernel.buddy size = (b, o)) :
    ∃ C lists', SegTraceInv { t with sys := t.sys.setBuddy b } start C lists' objs ∧
      ∀ paddr, o = some paddr → ∃ p, paddr = getPagePaddr p ∧ p < machinePageNum ∧
        pageVaddr p ∉ t.owned ∧ (∀ k a, t.sys.shmPool k = some a → a.pfnStart ≠ p) ∧
          liveBlock { t.kernel with buddy := b } C ⟨p, allocLevel size⟩ (pageVaddr p) := by
  obtain ⟨C, lists', h1, h2, h3⟩ := h.kernel.inv.allocPages_spec ha
  have hlive : ∀ x ∈ t.owned, isLive { t.kernel with buddy := b } C lists' objs x :=
    fun x hx => h2.isLive (h.kernel.live x hx) (Set.notMem_empty x)
  refine ⟨C, lists', h.others rfl rfl ⟨h1, h.kernel.nodup, hlive⟩ (h2.mono (Set.empty_subset _))
    (fun _ => .inl) fun _ => .inl, fun paddr ho => ?_⟩
  obtain ⟨p, hp, hlt, hnew, hblock⟩ := h3 paddr ho
  refine ⟨p, hp, hlt, fun hm => hnew (h.kernel.live _ hm), ?_, hblock⟩
  rintro k a hseg rfl
  exact hnew (h.segs k a hseg).2.1.isLive

theorem SegTraceInv.allocStep (h : SegTraceInv t start B lists objs) {size : ℕ} {b : BuddySys}
    {o : Option ℕ} (ha : allocPages t.kernel.buddy size = (b, o)) :
    ∃ C lists', SegTraceInv { t with
      sys := t.sys.setBuddy b, pages := (o.filter (· != 0)).toList ++ t.pages } start C lists' objs := by
  obtain ⟨C, lists', h1, h2⟩ := h.alloc ha
  refine ⟨C, lists', ?_⟩
  cases ho : o.filter (· != 0) with
  | none => exact h1
  | some paddr =>
    obtain ⟨p, rfl, hlt, hout, hsegs, hblock⟩ := h2 paddr (Option.filter_eq_some_iff.mp ho).1
    have hperm : (pageVaddr p :: t.owned).Perm
        (t.sys.kernel.live ++ (getPagePaddr p :: t.pages).map getKernelVaddr) :=
      List.perm_middle.symm
    have hkernel : SlabTraceInv ⟨{ t.kernel with buddy := b }, pageVaddr p :: t.owned⟩ C lists' objs := by
      refine ⟨h1.kernel.inv, List.nodup_cons.mpr ⟨hout, h.kernel.nodup⟩, fun x hx => ?_⟩
      rcases List.mem_cons.mp hx with rfl | hx
      · exact .inr ⟨_, hblock⟩
      · exact h1.kernel.live x hx
    refine ⟨hkernel.perm hperm, fun q hq => ?_, fun k a hseg => ?_, h1.inj, h1.calls, h1.zone⟩
    · rcases List.mem_cons.mp hq with rfl | hq
      · exact ⟨p, hlt, rfl, _, hblock⟩
      · exact h1.pages q hq
    · obtain ⟨ha1, ha2, ha3⟩ := h1.segs k a hseg
      refine ⟨ha1, ha2, fun hm => ?_⟩
      rcases List.mem_cons.mp (hperm.mem_iff.mpr hm) with e | hm
      · exact hsegs k a hseg (pageVaddr_inj ha1 hlt e)
      · exact ha3 hm

theorem kfree_page {s : SlabSys} {p : ℕ} {b : Block} (hp : p < machinePageNum)
    (hb : liveBlock s B b (pageVaddr p)) (hlt : b.head < machinePageNum) :
    kfree s (pageVaddr p) = { s with buddy := freePages s.buddy (getPagePaddr p) } := by
  obtain rfl := pageVaddr_inj hlt hp hb.2.2.symm
  obtain ⟨ha1, ha2, -⟩ := SlabInv.block_addr hp rfl
  have hslab : (s.buddy.pages b.head).usedInfo ≠ buddySlab := by
    rw [hb.2.1]
    decide
  have hpaddr : getKernelPaddr (pageVaddr b.head) = getPagePaddr b.head := by
    rw [machinePageNum_eq] at hp
    rw [getKernelPaddr_eq, pageVaddr_eq hlt, getPagePaddr, Nat.shiftLeft_eq, pageShift]
    omega
  simp only [kfree, ha1, if_neg hslab, hpaddr]

theorem SegTraceInv.freeStep (h : SegTraceInv t start B lists objs) {paddr : ℕ} (hm : paddr ∈ t.pages) :
    ∃ C lists' objs', SegTraceInv { t with
      sys := t.sys.setBuddy (freePages t.kernel.buddy paddr), pages := t.pages.erase paddr }
        start C lists' objs' := by
  obtain ⟨p, hlt, rfl, b, hb⟩ := h.pages paddr hm
  have hown : pageVaddr p ∈ t.pages.map getKernelVaddr := List.mem_map_of_mem hm
  have hfree : slabStep ⟨t.kernel, t.owned⟩ (.kfree (pageVaddr p)) =
      some ⟨{ t.kernel with buddy := freePages t.kernel.buddy (getPagePaddr p) },
        t.owned.erase (pageVaddr p)⟩ := by
    rw [← kfree_page hlt hb (h.kernel.inv.block_lt hb.1)]
    exact if_pos (List.mem_append_right _ hown)
  obtain ⟨C, lists', objs', h1, h2, h3⟩ := slabStep_survive h.kernel hfree
  have hperm : (t.owned.erase (pageVaddr p)).Perm
      (t.sys.kernel.live ++ (t.pages.erase (getPagePaddr p)).map getKernelVaddr) := by
    have hmap := (List.perm_cons_erase hm).map getKernelVaddr
    have hall : t.owned.Perm (pageVaddr p :: (t.sys.kernel.live ++
        (t.pages.erase (getPagePaddr p)).map getKernelVaddr)) :=
      (hmap.append_left _).trans List.perm_middle
    have herase := hall.erase (pageVaddr p)
    rwa [List.erase_cons_head] at herase
  have hdead : {y | y ∈ t.owned ∧ y ∉ t.owned.erase (pageVaddr p)} ⊆ {y | y ∈ t.owned ∧
      y ∉ t.sys.kernel.live ++ (t.pages.erase (getPagePaddr p)).map getKernelVaddr} :=
    fun y hy => ⟨hy.1, fun hin => hy.2 (hperm.mem_iff.mpr hin)⟩
  refine ⟨C, lists', objs', h.others rfl rfl (h1.perm hperm) (h2.mono hdead) (fun y hy => ?_)
    fun q hq => .inl (List.mem_of_mem_erase hq)⟩
  exact h3 y (hperm.mem_iff.mpr hy)

theorem callOf_seg {s : ShmSys} {k : ℕ} {seg : ShmStruct} (h : s.shmPool k = some seg) (size : ℕ) :
    callOf s k size = [⟨k, size, seg⟩] := by
  rw [callOf, if_neg (Int.not_lt.mpr (Int.natCast_nonneg k)), Int.toNat_natCast, h]
  rfl

/-- A new segment has its own block, and the structure that describes it is the kernel's. -/
theorem SegTraceInv.newSegment (h : SegTraceInv t start B lists objs) {key size uninit paddr objp : ℕ}
    {b : BuddySys} {sys : SlabSys} (hkey : t.sys.shmPool key = none)
    (ha : allocPages t.kernel.buddy size = (b, some paddr))
    (hm : kmalloc { t.kernel with buddy := b } shmStructBytes = (sys, some objp)) :
    let seg : ShmStruct :=
      ⟨getPgnByPaddr paddr, upperAlign size (1 <<< pageShift) >>> pageShift, uninit⟩
    ∃ C lists' objs', SegTraceInv { t with
      sys := { t.sys with
        kernel := ⟨sys, t.sys.kernel.live⟩
        shmPool := Function.update t.sys.shmPool key (some seg) }
      calls := ⟨key, size, seg⟩ :: t.calls } start C lists' objs' := by
  intro seg
  obtain ⟨C, lists', h1, h2⟩ := h.alloc ha
  obtain ⟨p, rfl, hlt, hout, hsegs, hblock⟩ := h2 paddr rfl
  have hstart : seg.pfnStart = p := getPgnByPaddr_getPagePaddr p
  obtain ⟨D, lists₂, objs', g1, g2, -⟩ := h1.kernel.inv.kmalloc_spec hm
  have hlive : ∀ x ∈ t.owned, isLive sys D lists₂ objs' x :=
    fun x hx => g2.isLive (h1.kernel.live x hx) (Set.notMem_empty x)
  have hnext : SegTraceInv { t with sys := { t.sys with kernel := ⟨sys, t.sys.kernel.live⟩ } } start
      D lists₂ objs' :=
    h1.others rfl rfl ⟨g1, h1.kernel.nodup, hlive⟩ (g2.mono (Set.empty_subset _))
      (fun _ => .inl) fun _ => .inl
  have hnum : seg.pfnNum ≤ 2 ^ allocLevel size :=
    levelFor_covers _ 32 0 (pfnNum_lt.le.trans (Nat.pow_le_pow_right Nat.two_pos (by decide)))
  have hheld : HoldsBytes sys D (pageVaddr p) (seg.pfnNum * pageSize) :=
    ⟨_, g2.blocks _ _ (Set.notMem_empty _) hblock, Nat.mul_le_mul_right _ hnum⟩
  have hpool : ∀ k a, Function.update t.sys.shmPool key (some seg) k = some a →
      k = key ∧ a = seg ∨ t.sys.shmPool k = some a := by
    intro k a hk
    rcases eq_or_ne k key with rfl | hne
    · rw [Function.update_self] at hk
      exact .inl ⟨rfl, (Option.some.inj hk).symm⟩
    · rw [Function.update_of_ne hne] at hk
      exact .inr hk
  refine ⟨D, lists₂, objs', hnext.kernel, hnext.pages, fun k a hk => ?_, fun k l a c hk hl e => ?_,
    fun c hc => ?_, hnext.zone⟩
  · rcases hpool k a hk with ⟨-, rfl⟩ | hold
    · exact hstart.symm ▸ ⟨hlt, hheld, hout⟩
    · exact hnext.segs k a hold
  · rcases hpool k a hk with ⟨rfl, rfl⟩ | hk' <;> rcases hpool l c hl with ⟨rfl, rfl⟩ | hl'
    · rfl
    · exact absurd (e.symm.trans hstart) (hsegs l c hl')
    · exact absurd (e.trans hstart) (hsegs k a hk')
    · exact h.inj k l a c hk' hl' e
  · rcases List.mem_cons.mp hc with rfl | hc
    · exact Function.update_self ..
    · have hold := h.calls c hc
      have hne : c.key ≠ key := by
        rintro rfl
        simp [hkey] at hold
      exact (Function.update_of_ne hne ..).trans hold

theorem SlabInv.allocPages_free {s : SlabSys} (hi : SlabInv s B lists objs) {size : ℕ} {b : BuddySys}
    {o : Option ℕ} (ha : allocPages s.buddy size = (b, o)) :
    ((∃ paddr, o = some paddr) → ∃ n, isFreePage s.buddy n) ∧
      (allocLevel size = 0 → (∃ n, isFreePage s.buddy n) → ∃ paddr, o = some paddr) := by
  rw [allocPages] at ha
  cases hr : __allocPages s.buddy (allocLevel size) buddyAlloced with
  | mk c r =>
    rw [allocLevel] at hr
    simp only [hr, Prod.mk.injEq] at ha
    obtain ⟨rfl, rfl⟩ := ha
    constructor
    · rintro ⟨paddr, hp⟩
      obtain ⟨p, rfl, -⟩ := Option.map_eq_some_iff.mp hp
      obtain ⟨c, hc, -⟩ := hi.buddy.free_of_alloc_some hr
      exact ⟨c.head, c, (hi.buddy.isFreeBlock_iff c).mpr hc, Block.head_mem _⟩
    · rintro h0 ⟨n, c, hc, -⟩
      cases r with
      | none =>
        rw [allocLevel] at h0
        obtain ⟨-, hnone⟩ := hi.buddy.allocPages_none (h0.le.trans (Nat.zero_le _)) hr
        have hlow := hnone c ((hi.buddy.isFreeBlock_iff c).mp hc)
        omega
      | some p => exact ⟨getPagePaddr p, rfl⟩

theorem SegTraceInv.shmgetStep (h : SegTraceInv t start B lists objs) {key : ℤ} {size uninit : ℕ}
    (hstep : segStep t (.shmget key size uninit) = some u) :
    (∃ C lists' objs', SegTraceInv u start C lists' objs') ∧
      (CallFits t (.shmget key size uninit) →
        ∀ c ∈ u.calls, c ∈ t.calls ∨ c.size ≤ c.seg.pfnNum * pageSize) := by
  obtain ⟨-, hstep⟩ := Option.ite_none_right_eq_some.mp hstep
  obtain ⟨⟨s, r⟩, hs, rfl⟩ := Option.map_eq_some_iff.mp hstep
  dsimp only
  rcases shmget_cases hs with ⟨rfl, rfl, -⟩ | ⟨k, seg, rfl, hk, hseg, rfl, rfl⟩ |
    ⟨k, b, o, rfl, hk, hnone, -, ha, ⟨-, rfl, rfl⟩ | ⟨paddr, sys, objp, rfl, hm, rfl, rfl⟩⟩
  · exact ⟨⟨B, lists, objs, h⟩, fun _ c hc => .inl hc⟩
  · rw [callOf_seg hseg]
    refine ⟨⟨B, lists, objs, { h with calls := fun c hc => ?_ }⟩, fun hfits c hc => ?_⟩
    · rcases List.mem_cons.mp hc with rfl | hc
      · exact hseg
      · exact h.calls c hc
    · rcases List.mem_cons.mp hc with rfl | hc
      · have hfit := hfits (Int.natCast_nonneg k) (Int.ofNat_lt.mpr hk)
        rw [Int.toNat_natCast, hseg] at hfit
        exact .inr hfit
      · exact .inl hc
  · obtain ⟨C, lists', h1, -⟩ := h.alloc ha
    exact ⟨⟨C, lists', objs, h1⟩, fun _ c hc => .inl hc⟩
  · have hnew := @newSegment t start B lists objs h k size uninit paddr objp b sys hnone ha hm
    rw [callOf_seg (Function.update_self ..)]
    refine ⟨hnew, fun hfits c hc => ?_⟩
    rcases List.mem_cons.mp hc with rfl | hc
    · have hfit := hfits (Int.natCast_nonneg k) (Int.ofNat_lt.mpr hk)
      rw [Int.toNat_natCast, hnone] at hfit
      obtain ⟨n, hn⟩ := (h.kernel.inv.allocPages_free ha).1 ⟨paddr, rfl⟩
      have hsize := hfit.resolve_right fun hnofree => hnofree n hn
      have hcover : size ≤ (size + 4095) / 4096 * 4096 := by omega
      rw [← pfnNum_eq hsize] at hcover
      exact .inr hcover
    · exact .inl hc

/-- Another call on a segment that is too small, or a first call whose size the align-up wraps. -/
theorem SegTraceInv.shmget_short (h : SegTraceInv t start B lists objs) (h0 : 0 < start) {key : ℤ}
    {size uninit : ℕ} (hc : ¬ CallFits t (.shmget key size uninit))
    (hstep : segStep t (.shmget key size uninit) = some u) :
    ∃ c ∈ u.calls, ¬ c.size ≤ c.seg.pfnNum * pageSize := by
  obtain ⟨hlt, hstep⟩ := Option.ite_none_right_eq_some.mp hstep
  obtain ⟨⟨s, r⟩, hs, rfl⟩ := Option.map_eq_some_iff.mp hstep
  simp only [CallFits, Classical.not_imp] at hc
  obtain ⟨hc1, hc2, hc3⟩ := hc
  rcases shmget_cases hs with ⟨rfl, rfl, hbad⟩ | ⟨k, seg, rfl, hk, hseg, rfl, rfl⟩ |
    ⟨k, b, o, rfl, hk, hnone, hpos, ha, hcase⟩
  · have hsize : size = 0 := by omega
    subst hsize
    split at hc3
    · exact absurd (Nat.zero_le _) hc3
    · exact absurd (.inl (by decide)) hc3
  · rw [Int.toNat_natCast, hseg] at hc3
    rw [callOf_seg hseg]
    exact ⟨_, List.mem_cons_self, hc3⟩
  · rw [Int.toNat_natCast, hnone] at hc3
    simp only [not_or, not_forall, not_not] at hc3
    obtain ⟨hsize, n, hn⟩ := hc3
    obtain ⟨paddr, rfl⟩ := (h.kernel.inv.allocPages_free ha).2
      (allocLevel_wraps hlt (Nat.lt_of_not_le hsize)) ⟨n, hn⟩
    obtain ⟨C, lists', h1, h2⟩ := h.alloc ha
    obtain ⟨p, rfl, -, -, -, hblock⟩ := h2 paddr rfl
    have hin : start ≤ p :=
      h1.zone ▸ (h1.kernel.inv.buddy.tiling.mem_range hblock.1.1 (Block.head_mem _)).1
    have hne : getPagePaddr p ≠ 0 := by
      rw [getPagePaddr, Nat.shiftLeft_eq]
      exact Nat.mul_ne_zero (h0.trans_le hin).ne' (Nat.two_pow_pos pageShift).ne'
    rcases hcase with ⟨hnil, -⟩ | ⟨_, sys, objp, hp, hm, rfl, rfl⟩
    · simp [hne] at hnil
    · rw [callOf_seg (Function.update_self ..)]
      refine ⟨_, List.mem_cons_self, ?_⟩
      rw [upperAlign_wraps hlt (Nat.lt_of_not_le hsize)]
      simpa using hpos.ne'

theorem SegTraceInv.step (h : SegTraceInv t start B lists objs) {op : SegOp}
    (hstep : segStep t op = some u) :
    (∃ C lists' objs', SegTraceInv u start C lists' objs') ∧
      (CallFits t op → ∀ c ∈ u.calls, c ∈ t.calls ∨ c.size ≤ c.seg.pfnNum * pageSize) := by
  cases op with
  | kernel op =>
    obtain ⟨k, hk, rfl⟩ := Option.map_eq_some_iff.mp hstep
    exact ⟨h.kernelStep hk, fun _ c hc => .inl hc⟩
  | allocPages size =>
    obtain ⟨-, hstep⟩ := Option.ite_none_right_eq_some.mp hstep
    obtain rfl := Option.some.inj hstep
    have ha : allocPages t.kernel.buddy size = (_, _) := rfl
    obtain ⟨C, lists', h1⟩ := h.allocStep ha
    exact ⟨⟨C, lists', objs, h1⟩, fun _ c hc => .inl hc⟩
  | freePages paddr =>
    obtain ⟨hm, hstep⟩ := Option.ite_none_right_eq_some.mp hstep
    obtain rfl := Option.some.inj hstep
    exact ⟨h.freeStep hm, fun _ c hc => .inl hc⟩
  | shmget key size uninit => exact h.shmgetStep hstep

end Inv

namespace SegsInv

variable {t u : SegTrace} {start : ℕ}

theorem kept (h : SegsInv start t) : SegsKept t := by
  obtain ⟨⟨B, lists, objs, hi⟩, hs⟩ := h
  exact hi.kept hs

theorem step (h : SegsInv start t) {op : SegOp} (hc : CallFits t op) (hu : segStep t op = some u) :
    SegsInv start u := by
  obtain ⟨⟨B, lists, objs, hi⟩, hs⟩ := h
  obtain ⟨h1, h2⟩ := hi.step hu
  exact ⟨h1, fun c hm => (h2 hc c hm).elim (hs c) id⟩

theorem not_kept (h : SegsInv start t) (h0 : 0 < start) {op : SegOp} (hc : ¬ CallFits t op)
    (hu : segStep t op = some u) : ¬ SegsKept u := by
  obtain ⟨⟨B, lists, objs, hi⟩, -⟩ := h
  intro hk
  cases op with
  | shmget key size uninit =>
    obtain ⟨c, hm, hshort⟩ := hi.shmget_short h0 hc hu
    exact hshort (hk.sized c hm)
  | _ => exact hc trivial

end SegsInv

theorem segStart_inv (boot : BootedMm) (pages : ℕ → Page) (links : PageLinks)
    (caches : ℕ → KmemCache) (slabs : ℕ → SlabHead) (objects : ObjectLinks) (mm : ℕ) :
    let s := segStart (slabStart boot pages links caches slabs objects) mm
    SegsInv s.kernel.buddy.startPfn s := by
  obtain ⟨B, lists, objs, hi, -⟩ := slabStart_inv boot pages links caches slabs objects
  have hnone : ∀ k a, initShmPool k ≠ some a := by simp [initShmPool]
  refine ⟨⟨B, lists, objs, ⟨hi.inv, ?_, ?_⟩, ?_, fun k a ha => absurd ha (hnone k a),
    fun k l a b ha => absurd ha (hnone k a), ?_, rfl⟩, ?_⟩ <;>
  simp [SegTrace.owned, segStart, shmStart, slabStart]

theorem segRun_kept {boot : BootedMm} {pages : ℕ → Page} {links : PageLinks}
    {caches : ℕ → KmemCache} {slabs : ℕ → SlabHead} {objects : ObjectLinks} {mm : ℕ}
    {ops : List SegOp} {t : SegTrace}
    (hr : runOps segStep (segStart (slabStart boot pages links caches slabs objects) mm) ops =
      some t) :
    let s := segStart (slabStart boot pages links caches slabs objects) mm
    (RunMeets segStep CallFits s ops → SegsKept t) ∧
      (0 < s.kernel.buddy.startPfn →
        (∀ k u, runOps segStep s (ops.take k) = some u → SegsKept u) →
          RunMeets segStep CallFits s ops) := by
  intro s
  have hs := segStart_inv boot pages links caches slabs objects mm
  constructor
  · intro hc
    have hi : SegsInv s.kernel.buddy.startPfn t :=
      runOps_invariant_of_meets (fun _ _ _ hi => hi.step) hs hc hr
    exact hi.kept
  · intro h0 hall
    exact (runAlways_iff (fun _ => SegsInv.kept) (fun _ _ _ hi => hi.step)
      (fun _ _ _ hi => hi.not_kept h0) hs hr).mp hall

def fitsPages (t : SegTrace) : SegOp → Bool
  | .shmget key size _ =>
    match t.sys.shmPool key.toNat with
    | some seg => size ≤ seg.pfnNum * pageSize
    | none => size + pageSize ≤ uintRange
  | _ => true

theorem callFits_of_fitsPages (t : SegTrace) (op : SegOp) (h : fitsPages t op = true) :
    CallFits t op := by
  cases op with
  | shmget key size uninit =>
    intro _ _
    rw [fitsPages] at h
    split at h
    · exact of_decide_eq_true h
    · exact .inl (of_decide_eq_true h)
  | _ => trivial

def smallSegs : SegTrace := segStart smallSlab 0

def segOps : List SegOp :=
  [.shmget 1 5000 7, .kernel (.kmalloc 100), .allocPages 100, .shmget 2 100 7, .shmget 1 8192 7,
    .freePages 0x14000, .shmget 3 10 7]

theorem segRun_isSome : (runOps segStep smallSegs segOps).isSome = true := by
  decide +kernel

def segRunEnd : SegTrace := Option.get _ segRun_isSome

theorem segRunEnd_eq : runOps segStep smallSegs segOps = some segRunEnd := Option.some_get _ ▸ rfl

theorem segRun_kept_small : SegsKept segRunEnd := by
  have hfits : RunMeets segStep (fun t op => fitsPages t op = true) smallSegs segOps := by
    decide +kernel
  exact (segRun_kept segRunEnd_eq).1 (runMeets_mono callFits_of_fitsPages hfits)

def shortOps : List SegOp := [.shmget 1 100 7, .shmget 1 8192 7]

theorem shortRun_isSome : (runOps segStep smallSegs shortOps).isSome = true := by
  decide +kernel

theorem segRun_short : ¬ ∀ ops t, runOps segStep smallSegs ops = some t → SegsKept t := by
  intro h
  have hkept := h shortOps _ (Option.some_get shortRun_isSome).symm
  have hcall : ((runOps segStep smallSegs shortOps).get shortRun_isSome).calls =
      [⟨1, 8192, ⟨16, 1, 7⟩⟩, ⟨1, 100, ⟨16, 1, 7⟩⟩] := by
    decide +kernel
  have hsize := hkept.sized ⟨1, 8192, ⟨16, 1, 7⟩⟩ (hcall ▸ List.mem_cons_self)
  exact absurd hsize (by decide)

end OurOS
