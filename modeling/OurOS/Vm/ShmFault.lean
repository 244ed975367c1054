import OurOS.Vm.Shm
import OurOS.Vm.VmFaultRun
import OurOS.Vm.VmSwap

set_option linter.style.nameCheck false

namespace OurOS

/-- The address at which the loop of `shmat` gets the page table entry for the frame `i`. -/
def bindAddr (p : ℕ) : ℕ → ℕ
  | 0 => p
  | i + 1 => (bindAddr p i + i * pageSize) % uintRange

def boundAt (pool : ℕ → Option ShmStruct) (shmid : ℤ) (vaddr n : ℕ) : Bool :=
  if shmid < 0 ∨ (maxShmNum : ℤ) ≤ shmid then false
  else
    match pool shmid.toNat with
    | none => false
    | some shm => (List.range shm.pfnNum).any fun i =>
      vpn (bindAddr (lowerAlign vaddr (1 <<< pageShift)) i) == n

def isSegFrame (pool : ℕ → Option ShmStruct) (f : ℕ) : Prop :=
  ∃ key seg, pool key = some seg ∧ seg.pfnStart ≤ f ∧ f < seg.pfnStart + seg.pfnNum

/-- `shared` holds of the pages that `shmat` has bound; the others are private. -/
structure SharedSys where
  sys : VmSys
  kernel : SlabTrace
  shmPool : ℕ → Option ShmStruct
  shared : ℕ → Bool

def SharedSys.shm (x : SharedSys) : ShmSys :=
  ⟨x.kernel, x.shmPool, fun p => (x.sys.mms p).pgd, x.sys.mmCurrent⟩

def SharedSys.withShm (x : SharedSys) (s : ShmSys) : SharedSys :=
  { x with
    sys := { x.sys with mms := fun p => { x.sys.mms p with pgd := s.pgds p } }
    kernel := s.kernel
    shmPool := s.shmPool }

inductive SharedOp
  | fault (vaddr : ℕ)
  | shmat (shmid : ℤ) (vaddr : ℕ)
  | runs (tlb : ℕ → TlbEntry) (hiAsid : ℕ) (mem : ℕ → ℕ → ℕ)

def sharedStep (env : VmEnv) (fuel : ℕ) (x : SharedSys) : SharedOp → Option SharedSys
  | .fault vaddr =>
    if vaddr < userTop ∧ (x.sys.curPte vaddr).tlbEntry.v = false then
      (doPagefault env (vmAccess env fuel) x.sys vaddr).map fun s => { x with sys := s }
    else none
  | .shmat shmid vaddr =>
    if vaddr < uintRange then
      let y := x.withShm (shmat x.shm shmid vaddr)
      some { y with shared := fun n => x.shared n || boundAt x.shmPool shmid vaddr n }
    else none
  | .runs tlb hiAsid mem =>
    some { x with sys := { x.sys with tlb := tlb, hiAsid := hiAsid, mem := mem } }

def sharedStart (asid : ℕ → ℕ) (s : VmSys) (kernel : SlabTrace)
    (pool : ℕ → Option ShmStruct) : SharedSys :=
  ⟨(faultStart asid s).sys, kernel, pool, fun _ => false⟩

/-- A fault that finds no frame finds a page on the FIFO whose recorded range can be copied without
another fault, and `shmat` binds no page that has a frame on the FIFO. -/
def keepsShared (env : VmEnv) (x : SharedSys) : SharedOp → Prop
  | .fault vaddr => vaddr < userTop ∧ (x.sys.curPte vaddr).tlbEntry.v = false ∧
      (mustSwap env x.sys vaddr →
        ∃ f, x.sys.cur.fifo.head? = some f ∧ rangeMapped x.sys (x.sys.virt f))
  | .shmat shmid vaddr => vaddr < uintRange ∧
      ∀ f ∈ x.sys.cur.fifo, boundAt x.shmPool shmid vaddr (vpn (x.sys.virt f)) = false
  | .runs _ _ _ => True

structure SharedKept (env : VmEnv) (x : SharedSys) : Prop where
  evicts : ∀ s, SameTables x.sys s → ∀ access v t paddr,
    swapOnePage env access s v = some (t, paddr) →
      ∃ f, s.cur.fifo.head? = some f ∧ paddr = getPagePaddr f
  apart : ∀ v < userTop, x.shared (vpn v) = false → (x.sys.curPte v).tlbEntry.v = true →
    x.sys.frameAt v ∈ x.sys.cur.fifo ∧ ¬ isSegFrame x.shmPool (x.sys.frameAt v)
  linked : ∀ f ∈ x.sys.cur.fifo, (x.sys.curPte (x.sys.virt f)).tlbEntry.v = true ∧
    x.sys.frameAt (x.sys.virt f) = f

section Bind

theorem bindPages_snd (seg : ShmStruct) (n : ℕ) (pgd : Pgd) (p : ℕ) :
    (bindPages seg n pgd p).2 = bindAddr p n := by
  induction n with
  | zero => rfl
  | succ n ih => rw [bindPages_succ, bindAddr, ih]

theorem bindPages_other (seg : ShmStruct) {n : ℕ} (pgd : Pgd) {p m : ℕ}
    (h : ∀ i < n, vpn (bindAddr p i) ≠ m) :
    pteAt (bindPages seg n pgd p).1 m = pteAt pgd m := by
  induction n with
  | zero => rfl
  | succ n ih =>
    rw [bindPages_succ, pteAt_setPte, bindPages_snd, if_neg (h n (Nat.lt_succ_self n)).symm]
    exact ih fun i hi => h i (Nat.lt_succ_of_lt hi)

theorem bindPages_valid (seg : ShmStruct) {n : ℕ} (pgd : Pgd) {p m : ℕ}
    (h : (pteAt pgd m).tlbEntry.v = true ∨ ∃ i < n, vpn (bindAddr p i) = m) :
    (pteAt (bindPages seg n pgd p).1 m).tlbEntry.v = true := by
  induction n with
  | zero =>
    rcases h with h | ⟨i, hi, -⟩
    · exact h
    · exact absurd hi (Nat.not_lt_zero i)
  | succ n ih =>
    rw [bindPages_succ, pteAt_setPte, bindPages_snd]
    split_ifs with e
    · rfl
    · refine ih (h.imp_right ?_)
      rintro ⟨i, hi, him⟩
      refine ⟨i, lt_of_le_of_ne (Nat.le_of_lt_succ hi) ?_, him⟩
      rintro rfl
      exact e him.symm

structure Bound (s t : ShmSys) (pages : ℕ → Bool) : Prop where
  cur : t.mmCurrent = s.mmCurrent
  spaces : ∀ p, p ≠ s.mmCurrent → t.pgds p = s.pgds p
  others : ∀ n, pages n = false →
    pteAt (t.pgds s.mmCurrent) n = pteAt (s.pgds s.mmCurrent) n
  valid : ∀ n, (pteAt (s.pgds s.mmCurrent) n).tlbEntry.v = true ∨ pages n = true →
    (pteAt (t.pgds s.mmCurrent) n).tlbEntry.v = true
  frames : ∀ f, isSegFrame t.shmPool f ↔ isSegFrame s.shmPool f

theorem isSegFrame_count {pool : ℕ → Option ShmStruct} {key : ℕ} {seg : ShmStruct}
    (hseg : pool key = some seg) (count f : ℕ) :
    isSegFrame (Function.update pool key (some { seg with count := count })) f ↔
      isSegFrame pool f := by
  constructor
  · rintro ⟨k, g, hk, h⟩
    by_cases e : k = key
    · rw [e, Function.update_self] at hk
      obtain rfl := Option.some.inj hk
      exact ⟨key, seg, hseg, h⟩
    · rw [Function.update_of_ne e] at hk
      exact ⟨k, g, hk, h⟩
  · rintro ⟨k, g, hk, h⟩
    by_cases e : k = key
    · rw [e, hseg] at hk
      obtain rfl := Option.some.inj hk
      exact ⟨key, _, Function.update_self .., h⟩
    · exact ⟨k, g, by rwa [Function.update_of_ne e], h⟩

theorem shmat_bound (s : ShmSys) (shmid : ℤ) (vaddr : ℕ) :
    Bound s (shmat s shmid vaddr) (boundAt s.shmPool shmid vaddr) := by
  unfold shmat boundAt
  split
  · exact ⟨rfl, fun _ _ => rfl, fun _ _ => rfl, fun _ h => h.resolve_right (by simp),
      fun _ => Iff.rfl⟩
  cases hseg : s.shmPool shmid.toNat with
  | none =>
    exact ⟨rfl, fun _ _ => rfl, fun _ _ => rfl, fun _ h => h.resolve_right (by simp),
      fun _ => Iff.rfl⟩
  | some seg =>
    refine ⟨rfl, fun p hp => Function.update_of_ne hp .., fun n hn => ?_, fun n hn => ?_,
      fun f => isSegFrame_count hseg _ f⟩
    · simp only [List.any_eq_false, List.mem_range, beq_iff_eq] at hn
      simp only [Function.update_self]
      exact bindPages_other seg _ hn
    · simp only [List.any_eq_true, List.mem_range, beq_iff_eq] at hn
      simp only [Function.update_self]
      exact bindPages_valid seg _ hn

end Bind

section Hide

variable {env : VmEnv} {s t : VmSys} {shared : ℕ → Bool} {v f : ℕ}

def hidePgd (shared : ℕ → Bool) (pgd : Pgd) : Pgd := fun i =>
  (pgd i).map fun table j => if shared (i * ptNum + j) then invalidated (table j) else table j

/-- The running address space without its shared pages. -/
def hideShared (s : VmSys) (shared : ℕ → Bool) : VmSys :=
  s.setCur { s.cur with pgd := hidePgd shared s.cur.pgd }

theorem pteAt_hidePgd (shared : ℕ → Bool) (pgd : Pgd) (n : ℕ) :
    pteAt (hidePgd shared pgd) n = if shared n then invalidated (pteAt pgd n) else pteAt pgd n := by
  have hn : n / ptNum * ptNum + n % ptNum = n := Nat.div_add_mod' n ptNum
  rw [pteAt, pteAt, readPte, readPte, hidePgd]
  cases pgd (n / ptNum) with
  | none => exact (ite_self zeroPte).symm
  | some table => simp only [Option.map_some, hn]

theorem hideShared_mm (s : VmSys) (shared : ℕ → Bool) (p : ℕ) :
    ((hideShared s shared).mms p).fifo = (s.mms p).fifo ∧
      ((hideShared s shared).mms p).pfNum = (s.mms p).pfNum := by
  by_cases e : p = s.mmCurrent
  · subst e
    simp [hideShared, VmSys.setCur, VmSys.cur]
  · simp [hideShared, VmSys.setCur, e]

theorem hideShared_fifo (s : VmSys) (shared : ℕ → Bool) :
    (hideShared s shared).cur.fifo = s.cur.fifo :=
  (hideShared_mm s shared s.mmCurrent).1

theorem hideShared_pte (s : VmSys) (shared : ℕ → Bool) (p n : ℕ) :
    pteAt ((hideShared s shared).mms p).pgd n =
      if p = s.mmCurrent ∧ shared n = true then invalidated (pteAt s.cur.pgd n)
      else pteAt (s.mms p).pgd n := by
  by_cases e : p = s.mmCurrent
  · subst e
    simp only [hideShared, VmSys.setCur, Function.update_self, pteAt_hidePgd, true_and]
    rfl
  · simp [hideShared, VmSys.setCur, e]

theorem hideShared_private (s : VmSys) {p n : ℕ} (h : p = s.mmCurrent → shared n = false) :
    pteAt ((hideShared s shared).mms p).pgd n = pteAt (s.mms p).pgd n := by
  rw [hideShared_pte, if_neg]
  rintro ⟨hp, hn⟩
  exact absurd ((h hp).symm.trans hn) (by decide)

theorem hideShared_valid (s : VmSys) {n : ℕ}
    (h : (pteAt (hideShared s shared).cur.pgd n).tlbEntry.v = true) :
    shared n = false ∧ pteAt (hideShared s shared).cur.pgd n = pteAt s.cur.pgd n := by
  have hp := hideShared_pte s shared s.mmCurrent n
  change pteAt (hideShared s shared).cur.pgd n = _ at hp
  cases hn : shared n with
  | false => exact ⟨rfl, hideShared_private s fun _ => hn⟩
  | true =>
    rw [if_pos ⟨rfl, hn⟩] at hp
    rw [hp] at h
    exact absurd h (by simp [invalidated])

theorem hideShared_none (s : VmSys) : hideShared s (fun _ => false) = s := by
  have hpgd : hidePgd (fun _ => false) s.cur.pgd = s.cur.pgd := by
    funext i
    simp [hidePgd]
  rw [hideShared, hpgd]
  exact congrArg (fun mms => { s with mms := mms }) (Function.update_eq_self _ _)

theorem Faulted.hide {l : List ℕ} {k : ℕ} {out : Option ℕ} (ht : Faulted s t v f l k out)
    (hv : shared (vpn v) = false) (hout : ∀ n, out = some n → shared n = false) :
    Faulted (hideShared s shared) (hideShared t shared) v f l k out := by
  have hcur : (hideShared t shared).mmCurrent = s.mmCurrent := ht.cur
  have hpte : ∀ p n, pteAt ((hideShared t shared).mms p).pgd n =
      if p = s.mmCurrent ∧ shared n = true then invalidated (pteAt (t.mms p).pgd n)
      else pteAt (t.mms p).pgd n := by
    intro p n
    rw [hideShared_pte, ht.cur]
    split_ifs with h
    · rw [h.1, VmSys.cur, ht.cur]
    · rfl
  refine ⟨hcur, ht.virt, fun p => ?_, fun p => ?_, fun p n => ?_, fun p n hne => ?_⟩
  · rw [(hideShared_mm t shared p).2, ht.pfNum, (hideShared_mm s shared p).2]
    rfl
  · rw [(hideShared_mm t shared p).1, ht.fifo, (hideShared_mm s shared p).1]
    rfl
  · rw [hpte]
    change _ = if p = s.mmCurrent ∧ n = vpn v then frameLo f
      else if p = s.mmCurrent ∧ out = some n then _ else _
    split_ifs with h h1 h2 h1 h2
    · rw [h1.2, hv] at h
      exact absurd h.2 (by decide)
    · exact absurd ((hout n h2.2).symm.trans h.2) (by decide)
    · -- a shared page, which the fault leaves alone
      have hlo := ht.lo p n
      rw [if_neg h1, if_neg h2] at hlo
      rw [hideShared_pte, if_pos h, VmSys.cur, ← h.1]
      exact congrArg (fun lo : EntryLo => { lo with v := false }) hlo
    · rw [ht.lo, if_pos h1]
    · rw [ht.lo, if_neg h1, if_pos h2, VmSys.cur]
      exact congrArg (fun pte : Pte => { pte.tlbEntry with v := false })
        (hideShared_private s fun _ => hout n h2.2).symm
    · rw [ht.lo, if_neg h1, if_neg h2, hideShared_pte, if_neg h]
  · have hinfo := ht.info p n hne
    rw [hpte, hideShared_pte]
    split_ifs with h
    · rw [VmSys.cur, ← h.1]
      exact hinfo
    · exact hinfo

end Hide

/-- `pool` is the table of segments at the start: later only the counters in it change. -/
structure SharedInv (env : VmEnv) (pool : ℕ → Option ShmStruct) (x : SharedSys) : Prop where
  owns : OwnsFrames env (hideShared x.sys x.shared)
  bound : ∀ n, x.shared n = true → (pteAt x.sys.cur.pgd n).tlbEntry.v = true
  apart : ∀ f ∈ x.sys.cur.fifo, ¬ isSegFrame pool f
  frames : ∀ f, isSegFrame x.shmPool f ↔ isSegFrame pool f

section Invariant

variable {env : VmEnv} {pool : ℕ → Option ShmStruct} {x : SharedSys} {t : VmSys} {v f : ℕ}

theorem SharedInv.owned (hi : SharedInv env pool x) (hf : f ∈ x.sys.cur.fifo) :
    x.sys.virt f < userTop ∧ x.shared (vpn (x.sys.virt f)) = false ∧
      (x.sys.curPte (x.sys.virt f)).tlbEntry.v = true ∧ x.sys.frameAt (x.sys.virt f) = f := by
  rw [← hideShared_fifo x.sys x.shared] at hf
  obtain ⟨h1, h2, h3⟩ := hi.owns.owned _ hi.owns.cur f hf
  obtain ⟨h4, h5⟩ := hideShared_valid x.sys h2
  have hpte : (hideShared x.sys x.shared).pte (hideShared x.sys x.shared).mmCurrent (x.sys.virt f) =
      x.sys.curPte (x.sys.virt f) := h5
  refine ⟨h1, h4, ?_, ?_⟩
  · rw [← hpte]
    exact h2
  · rw [VmSys.frameAt, ← hpte]
    exact h3

theorem swapOnePage_paddr {access : VmSys → ℕ → Option (VmSys × ℕ)} {s : VmSys} {paddr : ℕ}
    (h : swapOnePage env access s v = some (t, paddr)) :
    ∃ f, s.cur.fifo.head? = some f ∧ paddr = s.frameAt (s.virt f) <<< pageShift := by
  unfold swapOnePage at h
  simp only [Option.bind_eq_bind, Option.bind_eq_some_iff, touchPte_cur] at h
  obtain ⟨f, hhead, ⟨s2, block⟩, -, s3, -, hr⟩ := h
  refine ⟨f, hhead, ?_⟩
  obtain ⟨-, rfl⟩ := Prod.mk.inj (Option.some.inj hr)
  rw [entry_ptePtr, VmSys.pte, (touchPte_same s _ _).pte]
  rfl

theorem mustSwap_of_limit {s : VmSys} (h : env.limit ≤ s.cur.pfNum) : mustSwap env s v := by
  rw [VmSys.cur, ← (touchPte_same s s.mmCurrent v).pfNum] at h
  exact if_neg h.not_gt

/-- The frame of the recorded page goes to the page of the fault, whichever frame that is. -/
theorem doPagefault_victim {s : VmSys} (hframe : mustSwap env s v)
    (hhead : s.cur.fifo.head? = some f) (hr : rangeMapped s (s.virt f))
    (hsmall : s.frameAt (s.virt f) < machinePageNum) (n : ℕ) :
    ∃ t, doPagefault env (vmAccess env (n + 2)) s v = some t ∧
      (t.curPte v).tlbEntry = frameLo (s.frameAt (s.virt f)) := by
  have ht := (touchPte_same s s.mmCurrent v).tables
  set s1 : VmSys := { touchPte s s.mmCurrent v with clock := s.clock + 1 } with hs1
  have h1 : SameTables s s1 := ⟨ht.cur, ht.virt, ht.pfNum, ht.fifo, ht.pte⟩
  have hfifo : s1.cur.fifo = s.cur.fifo := h1.fifo s.mmCurrent
  obtain ⟨u, -, hswap, -, -⟩ := swapOnePage_mapped env (s := s1) (f := f) (hfifo ▸ hhead)
    (h1.rangeMapped hr) v n
  rw [VmSys.frameAt, h1.curPte, show s1.virt f = s.virt f from rfl] at hswap
  have hmap := setLo_mapped hsmall u v
  refine ⟨_, doPagefault_none hframe hswap, ?_⟩
  rw [VmSys.curPte, VmSys.pte]
  refine (congrArg Pte.tlbEntry (hmap.pte _ _)).trans ?_
  rw [if_pos ⟨hmap.cur, rfl⟩]

theorem SharedInv.kept (hi : SharedInv env pool x) : SharedKept env x where
  evicts s hs access v t paddr hswap := by
    obtain ⟨f, hhead, rfl⟩ := swapOnePage_paddr hswap
    refine ⟨f, hhead, ?_⟩
    have hfifo : s.cur.fifo = x.sys.cur.fifo := by
      rw [VmSys.cur, hs.cur, hs.fifo]
      rfl
    rw [hfifo] at hhead
    obtain ⟨-, -, -, h⟩ := hi.owned (List.mem_of_head? hhead)
    rw [VmSys.frameAt, hs.curPte, hs.virt]
    exact congrArg (· <<< pageShift) h
  apart v hv hpriv hval := by
    have hpte : (hideShared x.sys x.shared).pte x.sys.mmCurrent v = x.sys.curPte v :=
      hideShared_private x.sys fun _ => hpriv
    obtain ⟨h, -⟩ := hi.owns.valid _ hi.owns.cur v hv (by
      change ((hideShared x.sys x.shared).pte x.sys.mmCurrent v).tlbEntry.v = true
      rw [hpte]
      exact hval)
    have hmem : x.sys.frameAt v ∈ x.sys.cur.fifo := by
      rw [← hideShared_fifo x.sys x.shared, VmSys.frameAt, ← hpte]
      exact h
    refine ⟨hmem, ?_⟩
    rw [hi.frames]
    exact hi.apart _ hmem
  linked f hf := by
    obtain ⟨-, -, h1, h2⟩ := hi.owned hf
    exact ⟨h1, h2⟩

theorem SharedInv.faulted (hi : SharedInv env pool x) {l : List ℕ} {k : ℕ} {out : Option ℕ}
    (hv : v < userTop) (hinv : (x.sys.curPte v).tlbEntry.v = false) (hf : f < machinePageNum)
    (hseg : ¬ isSegFrame pool f) (hl : l.Sublist x.sys.cur.fifo) (hfl : f ∉ l)
    (hfresh : ∀ p ∈ env.procs, p ≠ x.sys.mmCurrent → f ∉ (x.sys.mms p).fifo)
    (hout : ∀ n, out = some n → x.shared n = false)
    (hstay : ∀ g ∈ x.sys.cur.fifo, g ∈ l ↔ out ≠ some (vpn (x.sys.virt g)))
    (ht : Faulted x.sys t v f l k out) : SharedInv env pool { x with sys := t } := by
  have hpriv : x.shared (vpn v) = false := by
    cases h : x.shared (vpn v) with
    | false => rfl
    | true => exact absurd (hinv.symm.trans (hi.bound _ h)) (by decide)
  have hpte : (hideShared x.sys x.shared).curPte v = x.sys.curPte v :=
    hideShared_private x.sys fun _ => hpriv
  refine ⟨hi.owns.faulted hv (by rw [hpte, hinv]) hf (by rwa [hideShared_fifo]) hfl
    (fun p hp hne => ?_) (fun g hg => ?_) (ht.hide hpriv hout), fun n hn => ?_, fun g hg => ?_,
    hi.frames⟩
  · rw [(hideShared_mm x.sys x.shared p).1]
    exact hfresh p hp hne
  · rw [hideShared_fifo] at hg
    exact hstay g hg
  · have hlo := ht.lo x.sys.mmCurrent n
    rw [if_neg, if_neg] at hlo
    · rw [VmSys.cur, ht.cur, hlo]
      exact hi.bound n hn
    · rintro ⟨-, h⟩
      exact absurd ((hout n h).symm.trans hn) (by decide)
    · rintro ⟨-, rfl⟩
      exact absurd (hpriv.symm.trans hn) (by decide)
  · dsimp only at hg
    rw [VmSys.cur, ht.cur, ht.fifo, if_pos rfl] at hg
    rcases List.mem_append.mp hg with hg | hg
    · exact hi.apart g (hl.subset hg)
    · rw [List.mem_singleton.mp hg]
      exact hseg

theorem sharedStep_fault {fuel : ℕ} (hv : v < userTop) (hinv : (x.sys.curPte v).tlbEntry.v = false)
    (hrun : doPagefault env (vmAccess env fuel) x.sys v = some t) :
    sharedStep env fuel x (.fault v) = some { x with sys := t } := by
  rw [sharedStep, if_pos ⟨hv, hinv⟩, hrun, Option.map_some]

theorem sharedFault_victim {n : ℕ} (hv : v < userTop) (hinv : (x.sys.curPte v).tlbEntry.v = false)
    (hswap : mustSwap env x.sys v) (hhead : x.sys.cur.fifo.head? = some f)
    (hr : rangeMapped x.sys (x.sys.virt f))
    (hsmall : x.sys.frameAt (x.sys.virt f) < machinePageNum) :
    ∃ y, sharedStep env (n + 2) x (.fault v) = some y ∧ y.shmPool = x.shmPool ∧
      y.shared = x.shared ∧ (y.sys.curPte v).tlbEntry = frameLo (x.sys.frameAt (x.sys.virt f)) := by
  obtain ⟨t, hrun, hlo⟩ := doPagefault_victim hswap hhead hr hsmall n
  exact ⟨_, sharedStep_fault hv hinv hrun, rfl, rfl, hlo⟩

theorem sharedFault_fresh (hi : SharedInv env pool x)
    (hpool : ∀ s f, env.allocOnePage s = some f → ¬ isSegFrame pool f) (hv : v < userTop)
    (hinv : (x.sys.curPte v).tlbEntry.v = false)
    (hf : faultFrame env (touchPte x.sys x.sys.mmCurrent v) = some f) (n : ℕ) :
    ∃ y, sharedStep env (n + 2) x (.fault v) = some y ∧ SharedInv env pool y := by
  obtain ⟨t, hrun, ht⟩ := doPagefault_fresh hf (vmAccess env (n + 2))
  obtain ⟨hsmall, hfresh⟩ := faultFrame_fresh hf
  have hseg : ¬ isSegFrame pool f := by
    rw [faultFrame] at hf
    split_ifs at hf
    exact hpool _ f hf
  refine ⟨_, sharedStep_fault hv hinv hrun,
    hi.faulted hv hinv hsmall hseg (List.Sublist.refl _) (hfresh _ hi.owns.cur)
      (fun p hp _ => hfresh p hp) (by simp) (fun g hg => ?_) ht⟩
  exact ⟨fun _ => by simp, fun _ => hg⟩

theorem sharedFault_swap (hi : SharedInv env pool x) (hv : v < userTop)
    (hinv : (x.sys.curPte v).tlbEntry.v = false) (hswap : mustSwap env x.sys v)
    (hhead : x.sys.cur.fifo.head? = some f) (hr : rangeMapped x.sys (x.sys.virt f)) (n : ℕ) :
    ∃ y, sharedStep env (n + 2) x (.fault v) = some y ∧ SharedInv env pool y := by
  have hcur : x.sys.mmCurrent ∈ env.procs := hi.owns.cur
  have hmem : f ∈ x.sys.cur.fifo := List.mem_of_head? hhead
  have hfifo : ∀ p, ((hideShared x.sys x.shared).mms p).fifo = (x.sys.mms p).fifo := fun p =>
    (hideShared_mm x.sys x.shared p).1
  have hnodup : x.sys.cur.fifo.Nodup := hfifo _ ▸ hi.owns.nodup _ hcur
  obtain ⟨-, hpriv, -, hpfn⟩ := hi.owned hmem
  have hsmall : f < machinePageNum := hi.owns.small _ hcur f (by rw [hfifo]; exact hmem)
  obtain ⟨t, hrun, ht⟩ := doPagefault_reuse hswap hhead hsmall hpfn hr n
  refine ⟨_, sharedStep_fault hv hinv hrun,
    hi.faulted hv hinv hsmall (hi.apart f hmem) List.erase_sublist
      (fun h => absurd rfl (hnodup.mem_erase_iff.mp h).1) (fun p hp hpc hfp => hpc ?_)
      (fun m hm => ?_) (fun g hg => ?_) ht⟩
  · refine hi.owns.disjoint p hp _ hcur f ?_ ?_
    · rwa [hfifo]
    · rwa [hfifo]
  · rw [← Option.some.inj hm]
    exact hpriv
  · exact mem_erase_iff_page hnodup (fun g hg => (hi.owned hg).2.2.2) hmem hg

theorem SharedInv.attach (hi : SharedInv env pool x) {shmid : ℤ} {vaddr : ℕ}
    (hfree : ∀ f ∈ x.sys.cur.fifo, boundAt x.shmPool shmid vaddr (vpn (x.sys.virt f)) = false) :
    SharedInv env pool { x.withShm (shmat x.shm shmid vaddr) with
      shared := fun n => x.shared n || boundAt x.shmPool shmid vaddr n } := by
  have hb := shmat_bound x.shm shmid vaddr
  generalize shmat x.shm shmid vaddr = s at hb
  generalize hpages : boundAt x.shmPool shmid vaddr = pages at hfree
  rw [show boundAt x.shm.shmPool shmid vaddr = pages from hpages] at hb
  set y : SharedSys := { x.withShm s with shared := fun n => x.shared n || pages n }
  have hor : ∀ n, y.shared n = false ↔ x.shared n = false ∧ pages n = false := fun n =>
    Bool.or_eq_false_iff
  have hfifo : ∀ p, ((hideShared y.sys y.shared).mms p).fifo =
      ((hideShared x.sys x.shared).mms p).fifo := by
    intro p
    rw [(hideShared_mm _ _ p).1, (hideShared_mm _ _ p).1]
    rfl
  have hpte : ∀ p n, (p = x.sys.mmCurrent → y.shared n = false) →
      pteAt ((hideShared y.sys y.shared).mms p).pgd n =
        pteAt ((hideShared x.sys x.shared).mms p).pgd n := by
    intro p n h
    rw [hideShared_private y.sys h, hideShared_private x.sys fun hp => ((hor n).mp (h hp)).1]
    by_cases e : p = x.sys.mmCurrent
    · rw [e]
      exact hb.others n ((hor n).mp (h e)).2
    · exact congrArg (pteAt · n) (hb.spaces p e)
  have ho := hi.owns
  refine ⟨⟨ho.cur, ?_, ?_, ?_, fun p hp f hf => ?_, fun p hp v hv hval => ?_⟩, fun n hn => ?_,
    hi.apart, fun f => (hb.frames f).trans (hi.frames f)⟩
  · simpa only [hfifo] using ho.nodup
  · simpa only [hfifo] using ho.disjoint
  · simpa only [hfifo] using ho.small
  · rw [hfifo] at hf
    rw [VmSys.pte, hpte]
    · exact ho.owned p hp f hf
    · rintro rfl
      rw [(hideShared_mm _ _ _).1] at hf
      exact (hor _).mpr ⟨(hi.owned hf).2.1, hfree f hf⟩
  · have hsame : pteAt ((hideShared y.sys y.shared).mms p).pgd (vpn v) =
        pteAt ((hideShared x.sys x.shared).mms p).pgd (vpn v) := by
      refine hpte p _ ?_
      rintro rfl
      exact (hideShared_valid y.sys hval).1
    rw [VmSys.pte, hsame] at hval ⊢
    rw [hfifo]
    exact ho.valid p hp v hv hval
  · refine hb.valid n ?_
    rcases (Bool.or_eq_true _ _).mp hn with h | h
    · exact .inl (hi.bound n h)
    · exact .inr h

theorem sharedStart_inv (asid : ℕ → ℕ) {s : VmSys} (kernel : SlabTrace)
    (hcur : s.mmCurrent ∈ env.procs) : SharedInv env pool (sharedStart asid s kernel pool) := by
  refine ⟨?_, fun n hn => absurd hn (by simp [sharedStart]), fun f hf => absurd hf List.not_mem_nil,
    fun f => Iff.rfl⟩
  change OwnsFrames env (hideShared (faultStart asid s).sys fun _ => false)
  rw [hideShared_none]
  exact (faultStart_inv asid hcur).owns

theorem sharedStep_inv (hi : SharedInv env pool x)
    (hpool : ∀ s f, env.allocOnePage s = some f → ¬ isSegFrame pool f) {op : SharedOp}
    (hc : keepsShared env x op) (n : ℕ) :
    ∃ y, sharedStep env (n + 2) x op = some y ∧ SharedInv env pool y := by
  cases op with
  | fault v =>
    obtain ⟨hv, hinv, hhead⟩ := hc
    cases hf : faultFrame env (touchPte x.sys x.sys.mmCurrent v) with
    | some f => exact sharedFault_fresh hi hpool hv hinv hf n
    | none =>
      obtain ⟨f, hfirst, hr⟩ := hhead hf
      exact sharedFault_swap hi hv hinv hf hfirst hr n
  | shmat shmid vaddr => exact ⟨_, if_pos hc.1, hi.attach hc.2⟩
  | runs tlb hiAsid mem =>
    exact ⟨_, rfl, ⟨hi.owns.cur, hi.owns.nodup, hi.owns.disjoint, hi.owns.small, hi.owns.owned,
      hi.owns.valid⟩, hi.bound, hi.apart, hi.frames⟩

theorem sharedRun_kept {asid : ℕ → ℕ} {s : VmSys} {kernel : SlabTrace} {ops : List SharedOp} (n : ℕ)
    (hpool : ∀ s f, env.allocOnePage s = some f → ¬ isSegFrame pool f)
    (hcur : s.mmCurrent ∈ env.procs)
    (hm : RunMeets (sharedStep env (n + 2)) (keepsShared env) (sharedStart asid s kernel pool) ops) :
    ∃ x, runOps (sharedStep env (n + 2)) (sharedStart asid s kernel pool) ops = some x ∧
      SharedKept env x := by
  obtain ⟨x, h1, h2⟩ := runOps_of_meets (P := SharedInv env pool)
    (fun x op hi hop => sharedStep_inv hi hpool hop n) (sharedStart_inv asid kernel hcur) hm
  exact ⟨x, h1, h2.kept⟩

end Invariant

/-- Two frames are free, and neither is in the segment of `onePage`. -/
def besideSegment : VmEnv where
  procs := [1]
  limit := 2
  random := VmSys.clock
  allocOnePage s := (twoFrames.allocOnePage s).filter (17 ≤ ·)
  behindEntry := fun _ => 0
  alloc_small s pfn h := twoFrames.alloc_small s pfn (Option.filter_eq_some_iff.mp h).1
  alloc_fresh s pfn h := twoFrames.alloc_fresh s pfn (Option.filter_eq_some_iff.mp h).1

theorem besideSegment_alloc (s : VmSys) (f : ℕ) (h : besideSegment.allocOnePage s = some f) :
    ¬ isSegFrame onePage.shmPool f := by
  have hlow : ∀ key < maxShmNum, ∀ seg ∈ onePage.shmPool key, seg.pfnStart + seg.pfnNum ≤ 17 := by
    decide +kernel
  rintro ⟨key, seg, hseg, -, hlt⟩
  have hkey := ((shmRun_inv onePage_eq).segs key seg hseg).key_lt
  have hf : 17 ≤ f := by simpa using (Option.filter_eq_some_iff.mp h).2
  have := hlow key hkey seg hseg
  omega

def besideStart : SharedSys := sharedStart id (vmStart oneBoot) onePage.kernel onePage.shmPool

def attachedOps : List SharedOp := [.fault 0x1000, .fault 0x4000, .shmat 2 0x2000]

theorem attachedOps_facts : ∀ x ∈ runOps (sharedStep besideSegment 2) besideStart attachedOps,
    (x.sys.curPte 0x5000).tlbEntry.v = false ∧ x.sys.cur.fifo.head? = some 5000 ∧
      x.sys.virt 5000 = 0x1000 ∧ (x.sys.curPte 0x1000).tlbEntry.v = true ∧
      x.shared (vpn 0x2000) = true ∧
      faultFrame besideSegment (touchPte x.sys x.sys.mmCurrent 0x5000) = none := by
  decide +kernel

theorem attachedOps_meets : RunMeets (sharedStep besideSegment 2) (keepsShared besideSegment)
    besideStart (attachedOps ++ [.fault 0x5000]) := by
  have hfirst : faultFrame besideSegment (touchPte besideStart.sys 1 0x1000) = some 5000 := by
    decide +kernel
  have hsecond : ∀ x ∈ sharedStep besideSegment 2 besideStart (.fault 0x1000),
      (x.sys.curPte 0x4000).tlbEntry.v = false ∧
        faultFrame besideSegment (touchPte x.sys x.sys.mmCurrent 0x4000) ≠ none := by
    decide +kernel
  have hfree : ∀ x ∈ runOps (sharedStep besideSegment 2) besideStart [.fault 0x1000, .fault 0x4000],
      ∀ f ∈ x.sys.cur.fifo, boundAt x.shmPool 2 0x2000 (vpn (x.sys.virt f)) = false := by
    decide +kernel
  refine ⟨⟨by decide, rfl, fun h => absurd (hfirst.symm.trans h) (by simp)⟩, fun x hx =>
    ⟨⟨by decide, (hsecond x hx).1, fun h => absurd h (hsecond x hx).2⟩, fun y hy =>
    ⟨⟨by decide, hfree y (by simp [runOps, hx, hy])⟩, fun z hz => ⟨?_, fun _ _ => trivial⟩⟩⟩⟩
  obtain ⟨hhole, hhead, hvirt, hval, -⟩ := attachedOps_facts z (by simp [attachedOps, runOps, hx, hy, hz])
  refine ⟨by decide, hhole, fun _ => ⟨5000, hhead, fun i hi _ => ?_⟩⟩
  rw [hvirt, curPte_of_vpn (vpn_add_aligned (show pageSize ∣ 0x1000 by decide) hi).1, hval]

/-- A segment is attached between two faults that take a frame and one that swaps. -/
theorem sharedRun_kept_small : ∃ x y,
    runOps (sharedStep besideSegment 2) besideStart attachedOps = some x ∧
      x.shared (vpn 0x2000) = true ∧ mustSwap besideSegment x.sys 0x5000 ∧
      sharedStep besideSegment 2 x (.fault 0x5000) = some y ∧ SharedKept besideSegment y := by
  obtain ⟨y, hy, hkept⟩ := sharedRun_kept 0 besideSegment_alloc (by decide) attachedOps_meets
  rw [runOps_append] at hy
  obtain ⟨x, hx, hlast⟩ := Option.bind_eq_some_iff.mp hy
  obtain ⟨z, hz, hzy⟩ := Option.bind_eq_some_iff.mp hlast
  obtain rfl := Option.some.inj hzy
  obtain ⟨-, -, -, -, hshared, hswap⟩ := attachedOps_facts x hx
  exact ⟨x, z, hx, hshared, hswap, hz, hkept⟩

theorem boundRun_isSome : (runOps (sharedStep besideSegment 2) besideStart
    [.fault 0x1000, .shmat 2 0x1000, .fault 0x2000]).isSome = true := by
  decide +kernel

def boundRun : SharedSys := Option.get _ boundRun_isSome

theorem boundRun_eq : runOps (sharedStep besideSegment 2) besideStart
    [.fault 0x1000, .shmat 2 0x1000, .fault 0x2000] = some boundRun :=
  Option.some_get _ ▸ rfl

theorem boundRun_queue : boundRun.sys.cur.pfNum = 2 ∧ boundRun.sys.cur.fifo = [5000, 5001] ∧
    boundRun.sys.virt 5000 = 0x1000 ∧ boundRun.sys.frameAt 0x1000 = 16 ∧
    (boundRun.sys.curPte 0x1000).tlbEntry.v = true ∧
    (boundRun.sys.curPte 0x3000).tlbEntry.v = false ∧ boundRun.shared (vpn 0x3000) = false ∧
    boundRun.shmPool 2 = some ⟨16, 1, 1⟩ := by
  decide +kernel

theorem boundRun_mapped : rangeMapped boundRun.sys 0x1000 := by
  obtain ⟨-, -, -, -, hval, -⟩ := boundRun_queue
  intro i hi _
  rw [curPte_of_vpn (vpn_add_aligned (show pageSize ∣ 0x1000 by decide) hi).1]
  exact hval

/-- The page of `0x3000`, which no segment has been attached to, gets the frame of the segment. -/
theorem boundRun_evicts_segment :
    runOps (sharedStep besideSegment 2) besideStart
        [.fault 0x1000, .shmat 2 0x1000, .fault 0x2000] = some boundRun ∧
      ¬ SharedKept besideSegment boundRun ∧ boundRun.sys.cur.fifo.head? = some 5000 ∧
      (∃ t, swapOnePage besideSegment (vmAccess besideSegment 2) boundRun.sys 0x3000 =
        some (t, getPagePaddr 16)) ∧
      ∃ y, sharedStep besideSegment 2 boundRun (.fault 0x3000) = some y ∧
        y.shared (vpn 0x3000) = false ∧ (y.sys.curPte 0x3000).tlbEntry.v = true ∧
        y.sys.frameAt 0x3000 = 16 ∧ isSegFrame y.shmPool 16 := by
  obtain ⟨hnum, hfifo, hvirt, hframe, -, hinv, hpriv, hpool⟩ := boundRun_queue
  have hhead : boundRun.sys.cur.fifo.head? = some 5000 := by
    rw [hfifo]
    rfl
  have hmapped := hvirt ▸ boundRun_mapped
  have hseg : isSegFrame boundRun.shmPool 16 := ⟨2, ⟨16, 1, 1⟩, hpool, by decide, by decide⟩
  refine ⟨boundRun_eq, fun hk => ?_, hhead, ?_, ?_⟩
  · have h := (hk.linked 5000 (by rw [hfifo]; simp)).2
    rw [hvirt, hframe] at h
    exact absurd h (by decide)
  · obtain ⟨t, -, h, -⟩ := swapOnePage_mapped besideSegment hhead hmapped 0x3000 0
    rw [hvirt, hframe] at h
    exact ⟨t, h⟩
  · obtain ⟨y, hrun, hpool', hshared, hlo⟩ := sharedFault_victim (n := 0) (by decide) hinv
      (mustSwap_of_limit hnum.ge : mustSwap besideSegment _ _) hhead hmapped
      (by rw [hvirt, hframe]; decide)
    rw [hvirt, hframe] at hlo
    refine ⟨y, hrun, by rw [hshared, hpriv], ?_, ?_, by rwa [hpool']⟩
    · rw [hlo]
      rfl
    · rw [VmSys.frameAt, hlo]
      rfl

end OurOS
