import Mathlib.Data.List.Count
import OurOS.Vm.VmFaultRun

set_option linter.style.nameCheck false

namespace OurOS

inductive FreeCall
  | freePages (paddr : ℕ)
  | kfreeTable (pgdIdx : ℕ)
  | kfreePgd
  | kfreeMm
deriving DecidableEq, Repr

def unmapPage (s : VmSys) (mm page : ℕ) : VmSys :=
  let pgd := setPte (s.mms mm).pgd (s.virt page) invalidated
  let s := { s with mms := Function.update s.mms mm { s.mms mm with pgd := pgd } }
  let s := tlbReset s mm (s.virt page)
  let fifo := (s.mms mm).fifo.erase page
  { s with mms := Function.update s.mms mm { s.mms mm with fifo := fifo } }

def freeFrames (mm : ℕ) : VmSys → List ℕ → VmSys × List FreeCall
  | s, [] => (s, [])
  | s, page :: pages =>
    let r := freeFrames mm (unmapPage s mm page) pages
    (r.1, .freePages (getPagePaddr page) :: r.2)

/-- The result is the state without the address space, and the calls that give memory back, in
order. -/
def freeMmStruct (s : VmSys) (mm : ℕ) : VmSys × List FreeCall :=
  let r := freeFrames mm s (s.mms mm).fifo
  let tables := (List.range ptNum).filter fun i => ((r.1.mms mm).pgd i).isSome
  (r.1, r.2 ++ tables.map .kfreeTable ++ [.kfreePgd, .kfreeMm])

structure FreesFifo (s : VmSys) (p : ℕ) : Prop where
  once : ∀ f ∈ (s.mms p).fifo, (freeMmStruct s p).2.count (.freePages (getPagePaddr f)) = 1
  only : ∀ paddr, .freePages paddr ∈ (freeMmStruct s p).2 →
    ∃ f ∈ (s.mms p).fifo, paddr = getPagePaddr f
  tables : ∀ i, .kfreeTable i ∈ (freeMmStruct s p).2 →
    i < ptNum ∧ (((freeMmStruct s p).1.mms p).pgd i).isSome = true

section Free

variable {s : VmSys} {p : ℕ}

theorem freeFrames_calls (s : VmSys) (p : ℕ) (pages : List ℕ) :
    (freeFrames p s pages).2 = pages.map fun f => .freePages (getPagePaddr f) := by
  induction pages generalizing s with
  | nil => rfl
  | cons page pages ih => rw [freeFrames, ih, List.map_cons]

theorem getPagePaddr_inj {f g : ℕ} (h : getPagePaddr f = getPagePaddr g) : f = g := by
  simp only [getPagePaddr, Nat.shiftLeft_eq] at h
  exact Nat.eq_of_mul_eq_mul_right (by decide) h

theorem freeMmStruct_frames (hn : (s.mms p).fifo.Nodup) : FreesFifo s p := by
  have hcalls := freeFrames_calls s p (s.mms p).fifo
  refine ⟨fun f hf => ?_, fun paddr hc => ?_, fun i hc => ?_⟩
  · have hinj : Function.Injective fun f => FreeCall.freePages (getPagePaddr f) :=
      fun f g h => getPagePaddr_inj (FreeCall.freePages.inj h)
    have hrest : ∀ tables : List ℕ, (tables.map FreeCall.kfreeTable).count
        (.freePages (getPagePaddr f)) = 0 := fun tables => by
      rw [List.count_eq_zero]
      simp
    simp only [freeMmStruct, hcalls, List.count_append, hrest]
    rw [List.count_map_of_injective _ _ hinj, List.count_eq_one_of_mem hn hf]
    rfl
  · simp only [freeMmStruct, hcalls, List.mem_append, List.mem_map] at hc
    obtain ⟨f, hf, he⟩ : ∃ f ∈ (s.mms p).fifo, FreeCall.freePages (getPagePaddr f) =
        .freePages paddr := by simpa using hc
    exact ⟨f, hf, (FreeCall.freePages.inj he).symm⟩
  · simp only [freeMmStruct, hcalls, List.mem_append, List.mem_map] at hc ⊢
    simpa using hc

end Free

section Run

variable {env : VmEnv} {s : VmSys} {asid : ℕ → ℕ} {ops : List FaultOp}

theorem faultRun_kept (n : ℕ) (hcur : s.mmCurrent ∈ env.procs)
    (hm : RunMeets (faultStep env (n + 2)) (keepsFrames env) (faultStart asid s) ops) :
    ∃ x, runOps (faultStep env (n + 2)) (faultStart asid s) ops = some x ∧
      (∀ p ∈ env.procs, SpaceKept env x.sys p ∧ FreesFifo x.sys p) ∧
      ∀ v, keepsFrames env x (.fault v) → mustSwap env x.sys v →
        ∃ y, faultStep env (n + 2) x (.fault v) = some y ∧ VictimOldest x y v := by
  obtain ⟨x, h1, h2⟩ := runOps_of_meets (P := FifoInv env)
    (fun x op hi hop => faultStep_inv hi hop n) (faultStart_inv asid hcur) hm
  refine ⟨x, h1, fun p hp => ⟨h2.spaceKept hp, freeMmStruct_frames (h2.owns.nodup p hp)⟩,
    fun v hc hswap => ?_⟩
  obtain ⟨y, h3, -, h4⟩ := fault_step h2 hc n
  exact ⟨y, h3, h4 hswap⟩

end Run

def framesLeft (env : VmEnv) (x : FaultSys) : FaultOp → Prop
  | .fault vaddr => vaddr < userTop ∧ (x.sys.curPte vaddr).tlbEntry.v = false ∧
      (mustSwap env x.sys vaddr → x.sys.cur.fifo ≠ [])
  | .switchTo mm => mm ∈ env.procs
  | .runs _ _ _ => True

/-- After the first frame there is no other until the second page of the swap file is in use. -/
def shortOfFrames : VmEnv where
  procs := [1]
  limit := machinePageNum
  random := VmSys.clock
  allocOnePage s :=
    let pfn := (5000 + (s.mms 1).fifo.length) % machinePageNum
    if ((s.mms 1).fifo = [] ∨ 3 ≤ s.pool.nextFree) ∧ pfn ∉ (s.mms 1).fifo then some pfn else none
  behindEntry := fun _ => 0
  alloc_small s pfn h := by
    dsimp only at h
    split_ifs at h
    obtain rfl := Option.some.inj h
    exact Nat.mod_lt _ (by decide)
  alloc_fresh s pfn h := by
    dsimp only at h
    split_ifs at h with hf
    obtain rfl := Option.some.inj h
    intro p hp
    rw [List.mem_singleton.mp hp]
    exact hf.2

def shortBoot : VmBoot shortOfFrames where
  asid := id
  mm := 1
  virt := fun _ => 0
  mem := fun _ _ => 0
  swapFile := fun _ _ => 0
  mm_mem := by decide
  asid_inj := by decide

/-- The second page takes the frame of the first one. -/
theorem faultRun_kept_small : ∃ x y,
    runOps (faultStep shortOfFrames 2) (faultStart id (vmStart shortBoot)) [.fault 0x1000] = some x ∧
      mustSwap shortOfFrames x.sys 0x2000 ∧
      faultStep shortOfFrames 2 x (.fault 0x2000) = some y ∧ VictimOldest x y 0x2000 ∧
      ∀ p ∈ [1], SpaceKept shortOfFrames y.sys p ∧ FreesFifo y.sys p := by
  have hfirst : keepsFrames shortOfFrames (faultStart id (vmStart shortBoot)) (.fault 0x1000) := by
    have hf : faultFrame shortOfFrames (touchPte (faultStart id (vmStart shortBoot)).sys 1 0x1000) =
        some 5000 := by decide +kernel
    exact ⟨by decide, rfl, fun h => absurd (hf.symm.trans h) (by simp)⟩
  have hfacts : ∀ x ∈ faultStep shortOfFrames 2 (faultStart id (vmStart shortBoot)) (.fault 0x1000),
      (x.sys.curPte 0x2000).tlbEntry.v = false ∧ x.sys.cur.fifo = [5000] ∧ x.sys.virt 5000 = 0x1000 ∧
        (x.sys.curPte 0x1000).tlbEntry.v = true ∧
        faultFrame shortOfFrames (touchPte x.sys x.sys.mmCurrent 0x2000) = none := by
    decide +kernel
  have hsecond : ∀ x ∈ faultStep shortOfFrames 2 (faultStart id (vmStart shortBoot))
      (.fault 0x1000), keepsFrames shortOfFrames x (.fault 0x2000) := by
    intro x hx
    obtain ⟨hhole, hfifo, hvirt, hval, -⟩ := hfacts x hx
    refine ⟨by decide, hhole, fun _ => ⟨5000, by rw [hfifo]; rfl, fun i hi _ => ?_⟩⟩
    have hvpn : vpn (x.sys.virt 5000 + i) = vpn 0x1000 := by
      rw [hvirt]
      simp only [vpn, pageSize] at hi ⊢
      omega
    rw [curPte_of_vpn hvpn, hval]
  obtain ⟨x, hx, -, hvictim⟩ := faultRun_kept 0 (by decide)
    (show RunMeets _ (keepsFrames shortOfFrames) _ [.fault 0x1000] from ⟨hfirst, fun _ _ => trivial⟩)
  obtain ⟨y, hy, hkept, -⟩ := faultRun_kept 0 (by decide)
    (show RunMeets _ (keepsFrames shortOfFrames) _ [.fault 0x1000, .fault 0x2000] from
      ⟨hfirst, fun x hx => ⟨hsecond x hx, fun _ _ => trivial⟩⟩)
  have hstep : faultStep shortOfFrames 2 (faultStart id (vmStart shortBoot)) (.fault 0x1000) =
      some x := by
    obtain ⟨u, hu, he⟩ := Option.bind_eq_some_iff.mp hx
    exact hu.trans he
  have hswap := (hfacts x hstep).2.2.2.2
  obtain ⟨z, hz, hoz⟩ := hvictim 0x2000 (hsecond x hstep) hswap
  have hyz : runOps (faultStep shortOfFrames 2) (faultStart id (vmStart shortBoot))
      [.fault 0x1000, .fault 0x2000] = some z := by
    rw [runOps, hstep, Option.bind_some, runOps, hz]
    rfl
  obtain rfl := Option.some.inj (hy.symm.trans hyz)
  exact ⟨x, y, hx, hswap, hz, hoz, hkept⟩

/-- One frame, on the page of `0x1fff`; `k` is the number of the next page of the swap file. -/
structure OneFrame (s : VmSys) (k : ℕ) : Prop where
  inv : VmInv shortOfFrames s
  cur : s.mmCurrent = 1
  fifo : (s.mms 1).fifo = [5000]
  num : (s.mms 1).pfNum = 1
  virt : s.virt 5000 = 0x1fff
  hole : (s.curPte 0x2000).tlbEntry.v = false
  info : (s.curPte 0x1fff).info = 0
  fresh : s.curPte 0x9000 = zeroPte
  next : s.pool.nextFree = k
  entry : ∀ i, s.pool.entry i = 0

structure BothMapped (s : VmSys) : Prop where
  cur : s.mmCurrent = 1
  fifo : (s.mms 1).fifo = [5000, 5001]
  first : (s.curPte 0x1fff).tlbEntry.v = true
  second : (s.curPte 0x2000).tlbEntry = frameLo 5001
  fresh : s.curPte 0x9000 = zeroPte

/-- The page of `0x2000` has got the first frame after all, and the second frame has no page. -/
structure LostFrame (s : VmSys) : Prop where
  cur : s.mmCurrent = 1
  fifo : (s.mms 1).fifo = [5001, 5000]
  second : (s.curPte 0x2000).tlbEntry = frameLo 5000
  fresh : s.curPte 0x9000 = zeroPte

section Short

variable {s t : VmSys} {k : ℕ}

theorem OneFrame.congr (h : OneFrame s k) (hi : VmInv shortOfFrames t) (hs : SameMms s t)
    (hpool : t.pool = s.pool) : OneFrame t k := by
  refine ⟨hi, hs.cur.trans h.cur, (hs.fifo 1).trans h.fifo, (hs.pfNum 1).trans h.num, ?_, ?_, ?_, ?_,
    ?_, ?_⟩
  · rw [hs.virt, h.virt]
  · rw [hs.curPte, h.hole]
  · rw [hs.curPte, h.info]
  · rw [hs.curPte, h.fresh]
  · rw [hpool, h.next]
  · rw [hpool]
    exact h.entry

theorem OneFrame.owned (h : OneFrame s k) : (s.curPte 0x1fff).tlbEntry.v = true ∧
    (s.curPte 0x1fff).tlbEntry.pfn = 5000 := by
  have hm := h.inv.frame.owned s.mmCurrent h.inv.frame.cur 5000 (by rw [h.cur, h.fifo]; simp)
  rw [h.virt] at hm
  exact hm.2

theorem BothMapped.congr (h : BothMapped s) (hs : SameTables s t) : BothMapped t := by
  refine ⟨hs.cur.trans h.cur, (hs.fifo 1).trans h.fifo, ?_, ?_, ?_⟩
  · rw [hs.curPte, h.first]
  · rw [hs.curPte, h.second]
  · rw [hs.curPte, h.fresh]

theorem LostFrame.congr (h : LostFrame s) (hs : SameTables s t) : LostFrame t := by
  refine ⟨hs.cur.trans h.cur, (hs.fifo 1).trans h.fifo, ?_, ?_⟩
  · rw [hs.curPte, h.second]
  · rw [hs.curPte, h.fresh]

theorem OneFrame.frame (h : OneFrame s k) (hk : k < 3) (v : ℕ) :
    mustSwap shortOfFrames s v := by
  have hs := touchPte_same s s.mmCurrent v
  have hp : (touchPte s s.mmCurrent v).pool.nextFree = k := h.next
  rw [mustSwap, faultFrame]
  split_ifs
  · simp only [shortOfFrames, hs.fifo, h.fifo, hp]
    rw [if_neg]
    simp
    omega
  · rfl

theorem OneFrame.pool (h : OneFrame s k) (hk : k < machinePageNum) :
    OneFrame { s with pool := (allocSwapBlock shortOfFrames s.pool).1 } (k + 1) := by
  have hlo : SameLo s { s with pool := (allocSwapBlock shortOfFrames s.pool).1 } :=
    ⟨rfl, rfl, rfl, fun _ => rfl, fun _ => rfl, fun _ _ => rfl⟩
  have hword : poolEntry shortOfFrames s.pool (s.pool.nextFree - 1) = 0 := by
    rw [poolEntry, h.next, if_pos (by omega), h.entry]
  have hpool : (allocSwapBlock shortOfFrames s.pool).1 =
      { s.pool with nextFree := s.pool.nextFree + 1, pageNum := s.pool.pageNum + 1 } := by
    simp [allocSwapBlock, hword]
  refine ⟨hlo.vmInv rfl h.inv, h.cur, h.fifo, h.num, h.virt, h.hole, h.info, h.fresh, ?_, ?_⟩
  · rw [hpool]
    exact congrArg (· + 1) h.next
  · rw [hpool]
    exact h.entry

theorem OneFrame.nested (h : OneFrame s 3) (n : ℕ) :
    ∃ u pfn, vmAccess shortOfFrames (n + 3) s 0x2000 = some (u, pfn) ∧ BothMapped u := by
  have hs := touchPte_same s s.mmCurrent 0x2000
  have hnext : (touchPte s s.mmCurrent 0x2000).pool.nextFree = 3 := h.next
  have hroom : (touchPte s s.mmCurrent 0x2000).cur.pfNum < shortOfFrames.limit := by
    rw [VmSys.cur, hs.pfNum, hs.cur, h.cur, h.num]
    decide
  have hframe : faultFrame shortOfFrames (touchPte s s.mmCurrent 0x2000) = some 5001 := by
    rw [faultFrame, if_pos hroom]
    simp only [shortOfFrames, hs.fifo, h.fifo, hnext]
    decide
  obtain ⟨t, u, h1, h2, h3, -, -⟩ := access_alloc h.inv (by decide) h.hole hframe n
  have hpte : ∀ v, vpn v ≠ 2 → t.curPte v = s.curPte v := fun v hv => by
    rw [VmSys.curPte, VmSys.pte, h2.cur, h2.pte, if_neg fun e => hv e.2]
    rfl
  refine ⟨u, 5001, h1, h3.cur.trans (h2.cur.trans h.cur), ?_, ?_, ?_, ?_⟩
  · rw [h3.fifo, h2.fifo, if_pos h.cur.symm, VmSys.cur, h.cur, h.fifo]
    rfl
  · rw [h3.curPte, hpte _ (by decide)]
    exact h.owned.1
  · rw [h3.curPte, VmSys.curPte, VmSys.pte, h2.cur, h2.pte, if_pos ⟨rfl, rfl⟩]
  · rw [h3.curPte, hpte _ (by decide), h.fresh]

theorem vpn_second {i : ℕ} (h0 : 0 < i) (hi : i < pageSize) : vpn (0x1fff + i) = vpn 0x2000 := by
  simp only [vpn, pageSize] at hi ⊢
  omega

theorem OneFrame.setSwapFile (h : OneFrame s k) (file : ℕ → ℕ → ℕ) :
    OneFrame { s with swapFile := file } k := by
  have hs : SameMms s { s with swapFile := file } :=
    ⟨rfl, rfl, rfl, fun _ => rfl, fun _ => rfl, fun _ => rfl, fun _ _ => rfl⟩
  exact h.congr (hs.lo.vmInv rfl h.inv) hs rfl

theorem SameTables.setSwapFile (s : VmSys) (file : ℕ → ℕ → ℕ) :
    SameTables s { s with swapFile := file } :=
  ⟨rfl, rfl, fun _ => rfl, fun _ => rfl, fun _ _ => rfl⟩

/-- What is copied out from `0x1fff` on is the first page's last byte and then the page of `0x2000`,
whose first access faults. -/
theorem OneFrame.write {P : VmSys → Prop} (h : OneFrame s k) (hk : k < machinePageNum) (n : ℕ)
    (hfault : ∀ t, OneFrame t (k + 1) →
      ∃ u pfn, vmAccess shortOfFrames (n + 2) t 0x2000 = some (u, pfn) ∧ P u)
    (hsame : ∀ t u, P t → SameTables t u → P u)
    (hmapped : ∀ t, P t → (t.curPte 0x2000).tlbEntry.v = true) :
    ∃ t b, writePageToDisk shortOfFrames (vmAccess shortOfFrames (n + 2))
        (touchPte s s.mmCurrent 0x1fff) 0x1fff (s.curPte 0x1fff).info = some (t, b) ∧ P t := by
  have hs := touchPte_same s s.mmCurrent 0x1fff
  have h1 : OneFrame (touchPte s s.mmCurrent 0x1fff) k := h.congr (hs.lo.vmInv rfl h.inv) hs rfl
  refine writePageToDisk_run shortOfFrames (P := fun i t => match i with
    | 0 => OneFrame t (k + 1)
    | 1 => OneFrame t (k + 1)
    | _ + 2 => P t) (s.curPte 0x1fff).info (fun i hi t ht => ?_) ?_
  · match i, ht with
    | 0, ht =>
      obtain ⟨u, h2, h3, h4, h5⟩ := access_resident ht.inv (v := 0x1fff) (by decide) ht.owned.1 n
      exact ⟨u, _, h2, fun file => (ht.congr h5 h3 h4.pool).setSwapFile file⟩
    | 1, ht =>
      obtain ⟨u, pfn, h2, h3⟩ := hfault t ht
      exact ⟨u, pfn, h2, fun file => hsame u _ h3 (.setSwapFile u file)⟩
    | j + 2, ht =>
      have hval : (t.curPte (0x1fff + (j + 2))).tlbEntry.v = true := by
        rw [curPte_of_vpn (vpn_second (by omega) hi)]
        exact hmapped t ht
      obtain ⟨u, pfn, h2, h3⟩ := access_mapped shortOfFrames (fun _ => hval) n
      exact ⟨u, pfn, h2, fun file => hsame t _ ht (h3.trans (.setSwapFile u file))⟩
  · rw [if_pos h.info]
    exact h1.pool hk

theorem OneFrame.fault {P : VmSys → Prop} (h : OneFrame s k) (hk : k < 3) (v n : ℕ)
    (hfault : ∀ t, OneFrame t (k + 1) →
      ∃ u pfn, vmAccess shortOfFrames (n + 2) t 0x2000 = some (u, pfn) ∧ P u)
    (hsame : ∀ t u, P t → SameTables t u → P u)
    (hmapped : ∀ t, P t → (t.curPte 0x2000).tlbEntry.v = true)
    (hrest : ∀ t, P t → rangeMapped t 0x1fff ∨ vpn v ≠ vpn 0x1fff ∧ (t.curPte v).info = 0) :
    ∃ t u, doPagefault shortOfFrames (vmAccess shortOfFrames (n + 2)) s v = some t ∧ P u ∧
      Faulted u t v 5000 (u.cur.fifo.erase 5000) u.cur.pfNum (some 1) := by
  have hs := touchPte_same s s.mmCurrent v
  set s1 : VmSys := { touchPte s s.mmCurrent v with clock := s.clock + 1 }
  have hs1 : SameMms s s1 :=
    ⟨hs.cur, hs.hiAsid, hs.virt, hs.asid, hs.pfNum, hs.fifo, hs.pte⟩
  have h1 : OneFrame s1 k := h.congr (hs1.lo.vmInv rfl h.inv) hs1 rfl
  obtain ⟨u, block, hw, hu⟩ := h1.write (hk.trans (by decide)) n hfault hsame hmapped
  have hhead : s1.cur.fifo.head? = some 5000 := by
    rw [VmSys.cur, h1.cur, h1.fifo]
    rfl
  rw [← h1.virt] at hw
  obtain ⟨t, hswap, ht⟩ := swapOnePage_of_write shortOfFrames hhead hw rfl
    (by rw [h1.virt]; exact hrest u hu)
  rw [h1.virt, h1.owned.2] at hswap
  rw [h1.virt] at ht
  obtain ⟨t', hrun, hfaulted⟩ := doPagefault_of_swap (h.frame hk v) (by decide) hswap ht
  exact ⟨t', u, hrun, hu, hfaulted⟩

theorem BothMapped.range (h : BothMapped s) : rangeMapped s 0x1fff := by
  intro i hi _
  rcases Nat.eq_zero_or_pos i with rfl | h0
  · exact h.first
  · rw [curPte_of_vpn (vpn_second h0 hi), h.second]
    rfl

theorem Faulted.curPte_of_ne {u w f : ℕ} {l : List ℕ} {out : ℕ}
    (ht : Faulted s t u f l k (some out)) (hu : vpn w ≠ vpn u) (hout : out ≠ vpn w) :
    t.curPte w = s.curPte w := by
  refine Pte.ext ?_ ?_
  · rw [VmSys.curPte, VmSys.pte, ht.cur, ht.lo, if_neg fun e => hu e.2,
      if_neg fun e => hout (Option.some.inj e.2)]
    rfl
  · rw [VmSys.curPte, VmSys.pte, ht.cur, ht.info _ _ fun e => hout (Option.some.inj e.2)]
    rfl

theorem Faulted.curPte_self {u f : ℕ} {l : List ℕ} {out : Option ℕ} (ht : Faulted s t u f l k out) :
    (t.curPte u).tlbEntry = frameLo f := by
  rw [VmSys.curPte, VmSys.pte, ht.cur, ht.lo, if_pos ⟨rfl, rfl⟩]

theorem OneFrame.lost (h : OneFrame s 2) (n : ℕ) :
    ∃ u pfn, vmAccess shortOfFrames (n + 4) s 0x2000 = some (u, pfn) ∧ LostFrame u := by
  obtain ⟨t, u, hrun, hu, ht⟩ := h.fault (P := BothMapped) (by decide) 0x2000 (n + 1)
    (fun t ht => ht.nested n) (fun t u ht hu => ht.congr hu)
    (fun t ht => by rw [ht.second]; rfl) fun t ht => .inl ht.range
  have hlost : LostFrame t := by
    refine ⟨ht.cur.trans hu.cur, ?_, ht.curPte_self, ?_⟩
    · rw [ht.fifo, if_pos hu.cur.symm, VmSys.cur, hu.cur, hu.fifo]
      rfl
    · rw [ht.curPte_of_ne (by decide) (by decide), hu.fresh]
  obtain ⟨w, pfn, hw, hsame⟩ := access_mapped shortOfFrames (s := t) (v := 0x2000)
    (fun _ => by rw [hlost.second]; rfl) (n + 1)
  refine ⟨w, pfn, ?_, hlost.congr hsame⟩
  rw [access_fault h.inv (by decide) h.hole, hrun, Option.bind_some]
  exact hw

theorem OneFrame.doubled (h : OneFrame s 1) : ∃ t,
    doPagefault shortOfFrames (vmAccess shortOfFrames 4) s 0x9000 = some t ∧ t.mmCurrent = 1 ∧
      (t.curPte 0x2000).tlbEntry = frameLo 5000 ∧ (t.curPte 0x9000).tlbEntry = frameLo 5000 := by
  obtain ⟨t, u, hrun, hu, ht⟩ := h.fault (P := LostFrame) (by decide) 0x9000 2
    (fun t ht => ht.lost 0) (fun t u ht hu => ht.congr hu)
    (fun t ht => by rw [ht.second]; rfl) fun t ht => .inr ⟨by decide, by rw [ht.fresh]; rfl⟩
  refine ⟨t, hrun, ht.cur.trans hu.cur, ?_, ht.curPte_self⟩
  rw [ht.curPte_of_ne (by decide) (by decide), hu.second]

theorem shortBoot_fault : ∃ t, doPagefault shortOfFrames (vmAccess shortOfFrames 4)
    (vmStart shortBoot) 0x1fff = some t ∧ OneFrame t 1 := by
  have hf : faultFrame shortOfFrames (touchPte (vmStart shortBoot) 1 0x1fff) = some 5000 := by
    decide +kernel
  obtain ⟨t, h1, h2⟩ := doPagefault_alloc (vmStart_inv shortBoot) (by decide) rfl hf
    (vmAccess shortOfFrames 4)
  obtain ⟨t', h3, h4⟩ := doPagefault_fresh hf (vmAccess shortOfFrames 4)
  obtain rfl := Option.some.inj (h1.symm.trans h3)
  have hpte : ∀ v, vpn v ≠ 1 → t.curPte v = zeroPte := fun v hv => by
    rw [VmSys.curPte, VmSys.pte, h2.cur, h2.pte, if_neg fun e => hv e.2]
    rfl
  refine ⟨t, h1, h2.inv, h2.cur, ?_, ?_, ?_, ?_, ?_, hpte _ (by decide), ?_, ?_⟩
  · exact h2.fifo 1
  · exact h4.pfNum 1
  · rw [h2.virt, Function.update_self]
  · rw [hpte _ (by decide)]
    rfl
  · rw [VmSys.curPte, VmSys.pte, h2.cur, h2.pte, if_pos ⟨rfl, rfl⟩]
    rfl
  · rw [h2.store.pool]
    rfl
  · rw [h2.store.pool]
    exact fun _ => rfl

/-- The recorded address `0x1fff` makes the copy fault on the next page, and the two nested faults
take the same frame. -/
theorem faultRun_not_kept :
    ¬ ∀ (env : VmEnv) (asid : ℕ → ℕ) (s : VmSys) (fuel : ℕ) (ops : List FaultOp) (x : FaultSys),
      s.mmCurrent ∈ env.procs →
      RunMeets (faultStep env fuel) (framesLeft env) (faultStart asid s) ops →
      runOps (faultStep env fuel) (faultStart asid s) ops = some x →
        ∀ p ∈ env.procs, SpaceKept env x.sys p := by
  intro h
  obtain ⟨s1, hrun1, h1⟩ := shortBoot_fault
  obtain ⟨s2, hrun2, hcur, hpte2, hpte9⟩ := h1.doubled
  set x0 := faultStart id (vmStart shortBoot)
  set x1 : FaultSys := ⟨s1, 1, Function.update x0.since (s1.frameAt 0x1fff) 0⟩
  set x2 : FaultSys := ⟨s2, 2, Function.update x1.since (s2.frameAt 0x9000) 1⟩
  have hinv : (x1.sys.curPte 0x9000).tlbEntry.v = false := by
    rw [h1.fresh]
    rfl
  have hstep1 : faultStep shortOfFrames 4 x0 (.fault 0x1fff) = some x1 := by
    rw [faultStep, if_pos ⟨by decide, rfl⟩, show x0.sys = vmStart shortBoot from rfl, hrun1]
    rfl
  have hstep2 : faultStep shortOfFrames 4 x1 (.fault 0x9000) = some x2 := by
    rw [faultStep, if_pos ⟨by decide, hinv⟩, hrun2]
    rfl
  have hmeets : RunMeets (faultStep shortOfFrames 4) (framesLeft shortOfFrames) x0
      [.fault 0x1fff, .fault 0x9000] := by
    refine ⟨⟨by decide, rfl, fun hswap => ?_⟩, fun y hy => ⟨?_, fun _ _ => trivial⟩⟩
    · have hf : faultFrame shortOfFrames (touchPte x0.sys 1 0x1fff) = some 5000 := by
        decide +kernel
      exact absurd (hf.symm.trans hswap) (by simp)
    · obtain rfl := Option.some.inj (hstep1.symm.trans hy)
      refine ⟨by decide, hinv, fun _ => ?_⟩
      rw [VmSys.cur, h1.cur, h1.fifo]
      decide
  have hruns : runOps (faultStep shortOfFrames 4) x0 [.fault 0x1fff, .fault 0x9000] = some x2 := by
    rw [runOps, hstep1, Option.bind_some, runOps, hstep2]
    rfl
  have hpage := (h shortOfFrames id (vmStart shortBoot) 4 _ x2 (by decide) hmeets hruns 1
    (by decide)).onePage 0x2000 (by decide) 0x9000 (by decide)
  have h2 : x2.sys.pte 1 0x2000 = s2.curPte 0x2000 := by rw [VmSys.curPte, hcur]
  have h9 : x2.sys.pte 1 0x9000 = s2.curPte 0x9000 := by rw [VmSys.curPte, hcur]
  rw [h2, h9, hpte2, hpte9] at hpage
  exact absurd (hpage rfl rfl rfl) (by decide)

end Short

end OurOS
