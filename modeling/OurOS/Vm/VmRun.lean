import OurOS.Vm.VmAccess

set_option linter.style.nameCheck false

namespace OurOS

inductive VmOp
  | load (vaddr : ℕ)
  | store (vaddr byte : ℕ)
  | switchTo (mm : ℕ)
deriving DecidableEq, Repr

def vmStep (env : VmEnv) (fuel : ℕ) (s : VmSys) : VmOp → Option VmSys
  | .load vaddr =>
    if vaddr < userTop then (userLoad (vmAccess env fuel) s vaddr).map Prod.fst else none
  | .store vaddr byte =>
    if vaddr < userTop then userStore (vmAccess env fuel) s vaddr byte else none
  | .switchTo mm => if mm ∈ env.procs then some (activateMemory s mm) else none

structure VmBoot (env : VmEnv) where
  asid : ℕ → ℕ
  mm : ℕ
  virt : ℕ → ℕ
  mem : ℕ → ℕ → ℕ
  swapFile : ℕ → ℕ → ℕ
  mm_mem : mm ∈ env.procs
  asid_inj : ∀ p ∈ env.procs, ∀ q ∈ env.procs, asid p % 256 = asid q % 256 → p = q

def vmStart {env : VmEnv} (boot : VmBoot env) : VmSys :=
  activateMemory
    { mms := fun p => createMmStruct (boot.asid p)
      mmCurrent := boot.mm
      hiAsid := 0
      tlb := initTlbEntry
      virt := boot.virt
      mem := boot.mem
      pool := initPagePool
      swapFile := boot.swapFile
      clock := 0 } boot.mm

theorem vmStart_pte {env : VmEnv} (boot : VmBoot env) (p v : ℕ) :
    (vmStart boot).pte p v = zeroPte := rfl

theorem vmStart_inv {env : VmEnv} (boot : VmBoot env) : VmInv env (vmStart boot) := by
  have hzero : zeroPte.tlbEntry.v = false := by decide
  have hvpn : ∀ i, ((vmStart boot).tlb i).vpn2 = 0x40000 + i := by
    intro i
    change (0x80000000 + 0x2000 * i) >>> 13 = _
    rw [Nat.shiftRight_eq_div_pow]
    omega
  constructor
  · refine ⟨⟨boot.mm_mem, boot.asid_inj⟩, fun p _ => List.nodup_nil,
      fun p _ q _ f hf => absurd hf List.not_mem_nil, fun p _ f hf => absurd hf List.not_mem_nil,
      fun p _ f hf => absurd hf List.not_mem_nil, fun p _ v _ hval => ?_⟩
    rw [vmStart_pte, hzero] at hval
    exact absurd hval (by decide)
  · refine ⟨rfl, fun i _ p _ _ v hv h2 => ?_, fun i _ hg => ?_, fun i _ j _ h _ => ?_⟩
    · rw [hvpn, vpn2, Nat.shiftRight_eq_div_pow] at h2
      simp only [userTop] at hv
      omega
    · have hng : ((vmStart boot).tlb i).isGlobal = false := rfl
      exact absurd (hng.symm.trans hg) (by decide)
    · rw [hvpn, hvpn] at h
      omega

section Isolation

variable {env : VmEnv} {s : VmSys}

/-- When the access has to swap, the victim's range is mapped, so that copying it out does not
fault in its turn. -/
def swapsResident (env : VmEnv) (s : VmSys) (v : ℕ) : Prop :=
  (s.curPte v).tlbEntry.v = false → faultFrame env (touchPte s s.mmCurrent v) = none →
    ∃ f, s.cur.fifo.head? = some f ∧ rangeResident s (s.virt f)

theorem swapsResident_of_frame {v : ℕ}
    (h : (faultFrame env (touchPte s s.mmCurrent v)).isSome = true) : swapsResident env s v := by
  intro _ hnone
  rw [hnone] at h
  exact absurd h (by decide)

theorem access_inv (hi : VmInv env s) {v : ℕ} (hv : v < userTop) (hc : swapsResident env s v)
    (n : ℕ) : ∃ t pfn, vmAccess env (n + 3) s v = some (t, pfn) ∧ VmInv env t := by
  by_cases hval : (s.curPte v).tlbEntry.v = true
  · obtain ⟨t, h1, -, -, h4⟩ := access_resident hi hv hval (n + 1)
    exact ⟨t, _, h1, h4⟩
  · rw [Bool.not_eq_true] at hval
    cases hf : faultFrame env (touchPte s s.mmCurrent v) with
    | some f =>
      obtain ⟨-, u, h1, -, -, -, h5⟩ := access_alloc hi hv hval hf n
      exact ⟨u, f, h1, h5⟩
    | none =>
      obtain ⟨f, hhead, hr⟩ := hc hval hf
      obtain ⟨-, u, -, h1, -, -, -, h5⟩ := access_swap hi hv hval hf hhead hr n
      exact ⟨u, f, h1, h5⟩

theorem VmInv.writeFrame (hi : VmInv env s) (pfn offset byte : ℕ) :
    VmInv env (writeFrame s pfn offset byte) := by
  have hlo : SameLo s (OurOS.writeFrame s pfn offset byte) :=
    ⟨rfl, rfl, rfl, fun _ => rfl, fun _ => rfl, fun _ _ => rfl⟩
  exact hlo.vmInv rfl hi

def noForeignGlobal (s : VmSys) (mm : ℕ) : Prop :=
  ∀ i < tlbNum, (s.tlb i).isGlobal = true → (s.tlb i).asid = (s.mms mm).asid % 256

instance (s : VmSys) (mm : ℕ) : Decidable (noForeignGlobal s mm) :=
  inferInstanceAs (Decidable (∀ i < tlbNum, _))

theorem VmInv.activateMemory (hi : VmInv env s) {mm : ℕ} (hmm : mm ∈ env.procs)
    (hg : noForeignGlobal s mm) : VmInv env (activateMemory s mm) :=
  ⟨⟨⟨hmm, hi.frame.asid⟩, hi.frame.nodup, hi.frame.disjoint, hi.frame.small, hi.frame.owned,
    hi.frame.valid⟩, ⟨rfl, hi.tlb.coherent, hg, hi.tlb.unique⟩⟩

def keepsIsolation (env : VmEnv) (s : VmSys) : VmOp → Prop
  | .load vaddr => vaddr < userTop ∧ swapsResident env s vaddr
  | .store vaddr _ => vaddr < userTop ∧ swapsResident env s vaddr
  | .switchTo mm => mm ∈ env.procs ∧ noForeignGlobal s mm

theorem vmStep_inv (hi : VmInv env s) {op : VmOp} (hc : keepsIsolation env s op) (n : ℕ) :
    ∃ t, vmStep env (n + 3) s op = some t ∧ VmInv env t := by
  cases op with
  | load v =>
    obtain ⟨t, pfn, h1, h2⟩ := access_inv hi hc.1 hc.2 n
    refine ⟨t, ?_, h2⟩
    simp [vmStep, hc.1, userLoad, h1]
  | store v byte =>
    obtain ⟨t, pfn, h1, h2⟩ := access_inv hi hc.1 hc.2 n
    refine ⟨writeFrame t pfn (v % pageSize) byte, ?_, h2.writeFrame _ _ _⟩
    simp [vmStep, hc.1, userStore, h1]
  | switchTo mm => exact ⟨activateMemory s mm, if_pos hc.1, hi.activateMemory hc.1 hc.2⟩

def Isolated (env : VmEnv) (s : VmSys) : Prop :=
  ∀ i < tlbNum, ∀ v < userTop, (s.tlb i).hits (vpn2 v) s.hiAsid = true →
    ((s.tlb i).half v).v = true →
      (s.curPte v).tlbEntry.v = true ∧ (s.curPte v).tlbEntry.pfn = ((s.tlb i).half v).pfn ∧
        ∀ p ∈ env.procs, p ≠ s.mmCurrent → ((s.tlb i).half v).pfn ∉ (s.mms p).fifo

theorem VmInv.isolated (hi : VmInv env s) : Isolated env s := by
  intro i hlt v hv hh hval
  obtain ⟨h1, h2⟩ := (hi.tlb.hits_iff hlt _).mp hh
  have he := hi.tlb.coherent i hlt s.mmCurrent hi.frame.cur (h2.trans hi.tlb.hi) v hv h1 hval
  rw [he] at hval ⊢
  refine ⟨hval, rfl, fun p hp hne hf => hne ?_⟩
  have hmem := (hi.frame.valid s.mmCurrent hi.frame.cur v hv hval).1
  exact hi.frame.disjoint p hp s.mmCurrent hi.frame.cur _ hf hmem

theorem vmRun_isolated {boot : VmBoot env} {ops : List VmOp} (n : ℕ)
    (hc : RunMeets (vmStep env (n + 3)) (keepsIsolation env) (vmStart boot) ops) :
    ∃ t, runOps (vmStep env (n + 3)) (vmStart boot) ops = some t ∧ Isolated env t := by
  obtain ⟨t, h1, h2⟩ := runOps_of_meets (P := VmInv env)
    (fun s op hi hop => vmStep_inv hi hop n) (vmStart_inv boot) hc
  exact ⟨t, h1, h2.isolated⟩

end Isolation

def freshFrame (procs : List ℕ) (s : VmSys) : Option ℕ :=
  let pfn := (5000 + s.clock) % machinePageNum
  if ∀ p ∈ procs, pfn ∉ (s.mms p).fifo then some pfn else none

theorem freshFrame_some {procs : List ℕ} {s : VmSys} {pfn : ℕ}
    (h : freshFrame procs s = some pfn) :
    pfn < machinePageNum ∧ ∀ p ∈ procs, pfn ∉ (s.mms p).fifo := by
  simp only [freshFrame] at h
  split_ifs at h with hf
  obtain rfl := Option.some.inj h
  exact ⟨Nat.mod_lt _ (by decide), hf⟩

def twoProcs : VmEnv where
  procs := [1, 2]
  limit := machinePageNum
  random := VmSys.clock
  allocOnePage := freshFrame [1, 2]
  behindEntry := fun _ => 0
  alloc_small _ _ h := (freshFrame_some h).1
  alloc_fresh _ _ h := (freshFrame_some h).2

def twoBoot : VmBoot twoProcs where
  asid := id
  mm := 1
  virt := fun _ => 0
  mem := fun _ _ => 0
  swapFile := fun _ _ => 0
  mm_mem := by decide
  asid_inj := by decide

theorem vmRun_isolated_small : ∃ t, runOps (vmStep twoProcs 3) (vmStart twoBoot)
    [.load 0x4000, .switchTo 2, .load 0x4000] = some t ∧ Isolated twoProcs t := by
  have h1 : ∀ t ∈ vmStep twoProcs 3 (vmStart twoBoot) (.load 0x4000), noForeignGlobal t 2 := by
    decide +kernel
  have h2 : ∀ t ∈ runOps (vmStep twoProcs 3) (vmStart twoBoot) [.load 0x4000, .switchTo 2],
      (faultFrame twoProcs (touchPte t t.mmCurrent 0x4000)).isSome = true := by
    decide +kernel
  refine vmRun_isolated 0 ⟨⟨by decide, swapsResident_of_frame (by decide +kernel)⟩, fun t ht =>
    ⟨⟨by decide, h1 t ht⟩, fun u hu => ⟨⟨by decide, swapsResident_of_frame (h2 u ?_)⟩,
      fun _ _ => trivial⟩⟩⟩
  rw [runOps, ht, Option.bind_some, runOps, hu]
  rfl

theorem twoRun_isSome : (runOps (vmStep twoProcs 3) (vmStart twoBoot)
    [.load 0x4000, .load 0x5000, .switchTo 2]).isSome = true := by
  decide +kernel

def twoRun : VmSys := Option.get _ twoRun_isSome

theorem twoRun_eq : runOps (vmStep twoProcs 3) (vmStart twoBoot)
    [.load 0x4000, .load 0x5000, .switchTo 2] = some twoRun :=
  Option.some_get _ ▸ rfl

/-- Process 2 finds the entry that process 1 left behind for `0x4000`. -/
theorem vmRun_not_isolated :
    ¬ ∀ (env : VmEnv) (boot : VmBoot env) (fuel : ℕ) (ops : List VmOp) (t : VmSys),
      runOps (vmStep env fuel) (vmStart boot) ops = some t → Isolated env t := by
  intro h
  have hiso := h twoProcs twoBoot 3 _ _ twoRun_eq 1 (by decide) 0x4000 (by decide)
    (by decide +kernel) (by decide +kernel)
  have hval : (twoRun.curPte 0x4000).tlbEntry.v = false := by decide +kernel
  exact absurd (hval.symm.trans hiso.1) (by decide)

end OurOS
