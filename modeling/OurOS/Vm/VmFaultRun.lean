import OurOS.Vm.VmFifo

set_option linter.style.nameCheck false

namespace OurOS

/-- `since` is the number of the fault that gave a frame to the page it holds. -/
structure FaultSys where
  sys : VmSys
  now : ℕ
  since : ℕ → ℕ

inductive FaultOp
  | fault (vaddr : ℕ)
  | switchTo (mm : ℕ)
  | runs (tlb : ℕ → TlbEntry) (hiAsid : ℕ) (mem : ℕ → ℕ → ℕ)

/-- `runs` is what a process does between its faults: it refills the TLB and writes to memory. -/
def faultStep (env : VmEnv) (fuel : ℕ) (x : FaultSys) : FaultOp → Option FaultSys
  | .fault vaddr =>
    if vaddr < userTop ∧ (x.sys.curPte vaddr).tlbEntry.v = false then
      (doPagefault env (vmAccess env fuel) x.sys vaddr).map fun s =>
        ⟨s, x.now + 1, Function.update x.since (s.frameAt vaddr) x.now⟩
    else none
  | .switchTo mm =>
    if mm ∈ env.procs then some { x with sys := activateMemory x.sys mm } else none
  | .runs tlb hiAsid mem =>
    some { x with sys := { x.sys with tlb := tlb, hiAsid := hiAsid, mem := mem } }

/-- All address spaces have just been created; whatever else the machine holds is arbitrary. -/
def faultStart (asid : ℕ → ℕ) (s : VmSys) : FaultSys :=
  ⟨{ s with mms := fun p => createMmStruct (asid p) }, 0, fun _ => 0⟩

structure FifoInv (env : VmEnv) (x : FaultSys) : Prop where
  owns : OwnsFrames env x.sys
  count : ∀ p ∈ env.procs, (x.sys.mms p).pfNum = (x.sys.mms p).fifo.length ∧
    (x.sys.mms p).pfNum ≤ env.limit
  aged : ∀ p ∈ env.procs, (x.sys.mms p).fifo.Pairwise fun f g => x.since f < x.since g
  past : ∀ p ∈ env.procs, ∀ f ∈ (x.sys.mms p).fifo, x.since f < x.now

def mustSwap (env : VmEnv) (s : VmSys) (v : ℕ) : Prop :=
  faultFrame env (touchPte s s.mmCurrent v) = none

/-- A fault that finds no frame finds a page on the FIFO, and the recorded range of that page can be
copied without another fault. -/
def keepsFrames (env : VmEnv) (x : FaultSys) : FaultOp → Prop
  | .fault vaddr => vaddr < userTop ∧ (x.sys.curPte vaddr).tlbEntry.v = false ∧
      (mustSwap env x.sys vaddr →
        ∃ f, x.sys.cur.fifo.head? = some f ∧ rangeMapped x.sys (x.sys.virt f))
  | .switchTo mm => mm ∈ env.procs
  | .runs _ _ _ => True

section Invariant

variable {env : VmEnv} {s t : VmSys} {x y : FaultSys} {v f : ℕ} {l : List ℕ} {k : ℕ}
  {out : Option ℕ}

theorem OwnsFrames.faulted (hi : OwnsFrames env s) (hv : v < userTop)
    (hinv : (s.curPte v).tlbEntry.v = false) (hf : f < machinePageNum)
    (hl : l.Sublist s.cur.fifo) (hfl : f ∉ l)
    (hfresh : ∀ p ∈ env.procs, p ≠ s.mmCurrent → f ∉ (s.mms p).fifo)
    (hstay : ∀ g ∈ s.cur.fifo, g ∈ l ↔ out ≠ some (vpn (s.virt g)))
    (ht : Faulted s t v f l k out) : OwnsFrames env t := by
  refine hi.assign hv hinv hf hl hfl hfresh ht.cur ht.virt ht.fifo ?_ (fun p n hne hp => ?_)
    fun w hw hne hval => ?_
  · rw [ht.lo, if_pos ⟨rfl, rfl⟩]
  · rw [ht.lo, if_neg hne, if_neg]
    rintro ⟨hpc, hout⟩
    obtain ⟨g, hg, rfl⟩ := hp hpc
    exact (hstay g (hl.subset hg)).mp hg hout
  · have hlo := ht.lo s.mmCurrent (vpn w)
    rw [if_neg fun h => hne h.2] at hlo
    change (t.pte s.mmCurrent w).tlbEntry = _ at hlo
    split_ifs at hlo with h
    · rw [hlo] at hval
      exact absurd hval (by simp)
    · have hold : (t.pte s.mmCurrent w).tlbEntry = (s.curPte w).tlbEntry := hlo
      rw [hold] at hval
      obtain ⟨hmem, hvpn⟩ := hi.valid s.mmCurrent hi.cur w hw hval
      refine ⟨hold, (hstay _ hmem).mpr fun hout => h ⟨rfl, hout.trans (congrArg some hvpn)⟩⟩

theorem mem_erase_iff_page {g : ℕ} (hl : l.Nodup) (hown : ∀ g ∈ l, s.frameAt (s.virt g) = g)
    (hf : f ∈ l) (hg : g ∈ l) :
    g ∈ l.erase f ↔ some (vpn (s.virt f)) ≠ some (vpn (s.virt g)) := by
  rw [hl.mem_erase_iff, and_iff_left hg]
  refine not_congr ⟨fun e => e ▸ rfl, fun e => ?_⟩
  have hpage := curPte_of_vpn (s := s) (Option.some.inj e)
  have hsame : s.frameAt (s.virt f) = s.frameAt (s.virt g) :=
    congrArg (fun pte : Pte => pte.tlbEntry.pfn) hpage
  rw [← hown g hg, ← hsame, hown f hf]

theorem Faulted.frameAt (ht : Faulted s t v f l k out) : t.frameAt v = f := by
  rw [VmSys.frameAt, VmSys.curPte, VmSys.pte, ht.lo, if_pos ⟨ht.cur, rfl⟩]
  rfl

theorem Faulted.aged (ht : Faulted s t v f l k out) (hl : l.Sublist s.cur.fifo) (hfl : f ∉ l)
    (hcur : s.mmCurrent ∈ env.procs)
    (hfresh : ∀ p ∈ env.procs, p ≠ s.mmCurrent → f ∉ (s.mms p).fifo) {since : ℕ → ℕ} {now : ℕ}
    (haged : ∀ p ∈ env.procs, (s.mms p).fifo.Pairwise fun f g => since f < since g)
    (hpast : ∀ p ∈ env.procs, ∀ g ∈ (s.mms p).fifo, since g < now) :
    (∀ p ∈ env.procs, (t.mms p).fifo.Pairwise fun g h =>
        Function.update since f now g < Function.update since f now h) ∧
      ∀ p ∈ env.procs, ∀ g ∈ (t.mms p).fifo, Function.update since f now g < now + 1 := by
  have hother : ∀ g, g ≠ f → Function.update since f now g = since g := fun g hg =>
    Function.update_of_ne hg ..
  have hkept : ∀ (m : List ℕ), f ∉ m → (m.Pairwise fun g h => since g < since h) →
      m.Pairwise fun g h => Function.update since f now g < Function.update since f now h := by
    intro m hfm hm
    refine hm.imp_of_mem fun hg hh hlt => ?_
    rwa [hother _ fun e => hfm (e ▸ hg), hother _ fun e => hfm (e ▸ hh)]
  have hpastl : ∀ g ∈ l, since g < now := fun g hg => hpast _ hcur g (hl.subset hg)
  constructor
  · intro p hp
    rw [ht.fifo]
    split_ifs with e
    · rw [List.pairwise_append]
      refine ⟨hkept l hfl ((haged _ hcur).sublist hl), List.pairwise_singleton _ _,
        fun g hg h hh => ?_⟩
      rw [List.mem_singleton.mp hh, Function.update_self, hother g fun e => hfl (e ▸ hg)]
      exact hpastl g hg
    · exact hkept _ (hfresh p hp e) (haged p hp)
  · intro p hp g hg
    by_cases e : g = f
    · rw [e, Function.update_self]
      exact Nat.lt_succ_self now
    · rw [hother g e]
      rw [ht.fifo] at hg
      split_ifs at hg with hpc
      · rcases List.mem_append.mp hg with hg | hg
        · exact Nat.lt_succ_of_lt (hpastl g hg)
        · exact absurd (List.mem_singleton.mp hg) e
      · exact Nat.lt_succ_of_lt (hpast p hp g hg)

theorem FifoInv.faulted (hi : FifoInv env x) (hv : v < userTop)
    (hinv : (x.sys.curPte v).tlbEntry.v = false) (hf : f < machinePageNum)
    (hl : l.Sublist x.sys.cur.fifo) (hfl : f ∉ l)
    (hfresh : ∀ p ∈ env.procs, p ≠ x.sys.mmCurrent → f ∉ (x.sys.mms p).fifo)
    (hstay : ∀ g ∈ x.sys.cur.fifo, g ∈ l ↔ out ≠ some (vpn (x.sys.virt g)))
    (hk : k = l.length + 1) (hlimit : k ≤ env.limit) (ht : Faulted x.sys t v f l k out) :
    FifoInv env ⟨t, x.now + 1, Function.update x.since (t.frameAt v) x.now⟩ := by
  obtain ⟨haged, hpast⟩ := ht.aged hl hfl hi.owns.cur hfresh hi.aged hi.past
  refine ⟨hi.owns.faulted hv hinv hf hl hfl hfresh hstay ht, fun p hp => ?_, ?_, ?_⟩
  · dsimp only
    rw [ht.pfNum, ht.fifo]
    split_ifs
    · exact ⟨by rw [hk, List.length_append, List.length_singleton], hlimit⟩
    · exact hi.count p hp
  · rw [ht.frameAt]
    exact haged
  · rw [ht.frameAt]
    exact hpast

theorem faultStart_inv (asid : ℕ → ℕ) (hcur : s.mmCurrent ∈ env.procs) :
    FifoInv env (faultStart asid s) := by
  have hpte : ∀ p v, ((faultStart asid s).sys.pte p v).tlbEntry.v = false := fun _ _ => rfl
  refine ⟨⟨hcur, fun p _ => List.nodup_nil, fun p _ q _ f hf => absurd hf List.not_mem_nil,
    fun p _ f hf => absurd hf List.not_mem_nil, fun p _ f hf => absurd hf List.not_mem_nil,
    fun p _ v _ hval => ?_⟩, fun p _ => ⟨rfl, Nat.zero_le _⟩, fun p _ => List.Pairwise.nil,
    fun p _ f hf => absurd hf List.not_mem_nil⟩
  exact absurd ((hpte p v).symm.trans hval) (by decide)

/-- What a fault at `v` from `x` to `y` does when it finds no frame: the frame that has held its page
longest is taken from that page. -/
structure VictimOldest (x y : FaultSys) (v : ℕ) : Prop where
  mem : y.sys.frameAt v ∈ x.sys.cur.fifo
  oldest : ∀ g ∈ x.sys.cur.fifo, g ≠ y.sys.frameAt v → x.since (y.sys.frameAt v) < x.since g
  gone : (y.sys.curPte (x.sys.virt (y.sys.frameAt v))).tlbEntry.v = false

theorem head_oldest {fifo : List ℕ} {since : ℕ → ℕ} (hhead : fifo.head? = some f)
    (haged : fifo.Pairwise fun f g => since f < since g) :
    ∀ g ∈ fifo, g ≠ f → since f < since g := by
  cases fifo with
  | nil => exact absurd hhead (by simp)
  | cons a fifo =>
    obtain rfl : a = f := Option.some.inj hhead
    intro g hg hne
    rcases List.mem_cons.mp hg with rfl | hg
    · exact absurd rfl hne
    · exact (List.pairwise_cons.mp haged).1 g hg

theorem fault_fresh (hi : FifoInv env x) (hv : v < userTop)
    (hinv : (x.sys.curPte v).tlbEntry.v = false)
    (hf : faultFrame env (touchPte x.sys x.sys.mmCurrent v) = some f) (n : ℕ) :
    ∃ y, faultStep env (n + 2) x (.fault v) = some y ∧ FifoInv env y := by
  obtain ⟨t, hrun, ht⟩ := doPagefault_fresh hf (vmAccess env (n + 2))
  obtain ⟨hsmall, hfresh⟩ := faultFrame_fresh hf
  have hroom : x.sys.cur.pfNum < env.limit := by
    rw [faultFrame, VmSys.cur, (touchPte_same x.sys _ v).pfNum] at hf
    split_ifs at hf with h
    exact h
  obtain ⟨hlen, -⟩ := hi.count _ hi.owns.cur
  refine ⟨_, by rw [faultStep, if_pos ⟨hv, hinv⟩, hrun, Option.map_some],
    hi.faulted hv hinv hsmall (List.Sublist.refl _) (hfresh _ hi.owns.cur)
      (fun p hp _ => hfresh p hp) (fun g hg => ?_) (congrArg (· + 1) hlen) hroom ht⟩
  exact ⟨fun _ => by simp, fun _ => hg⟩

theorem fault_swap (hi : FifoInv env x) (hv : v < userTop)
    (hinv : (x.sys.curPte v).tlbEntry.v = false) (hswap : mustSwap env x.sys v)
    (hhead : x.sys.cur.fifo.head? = some f) (hr : rangeMapped x.sys (x.sys.virt f)) (n : ℕ) :
    ∃ y, faultStep env (n + 2) x (.fault v) = some y ∧ FifoInv env y ∧ VictimOldest x y v := by
  have hcur := hi.owns.cur
  have hmem : f ∈ x.sys.cur.fifo := List.mem_of_head? hhead
  have hnodup : x.sys.cur.fifo.Nodup := hi.owns.nodup _ hcur
  obtain ⟨-, hval, hpfn⟩ := hi.owns.owned _ hcur f hmem
  have hsmall := hi.owns.small _ hcur f hmem
  obtain ⟨t, hrun, ht⟩ := doPagefault_reuse hswap hhead hsmall hpfn hr n
  have hlen : x.sys.cur.pfNum = (x.sys.cur.fifo.erase f).length + 1 := by
    rw [List.length_erase_add_one hmem]
    exact (hi.count _ hcur).1
  refine ⟨_, by rw [faultStep, if_pos ⟨hv, hinv⟩, hrun, Option.map_some],
    hi.faulted hv hinv hsmall List.erase_sublist (fun h => absurd rfl (hnodup.mem_erase_iff.mp h).1)
      (fun p hp hpc hfp => hpc (hi.owns.disjoint p hp _ hcur f hfp hmem)) (fun g hg => ?_) hlen
      (hi.count _ hcur).2 ht, ?_, ?_, ?_⟩
  · exact mem_erase_iff_page hnodup (fun g hg => (hi.owns.owned _ hcur g hg).2.2) hmem hg
  · rw [ht.frameAt]
    exact hmem
  · rw [ht.frameAt]
    exact head_oldest hhead (hi.aged _ hcur)
  · have hne : vpn (x.sys.virt f) ≠ vpn v := by
      intro he
      rw [VmSys.pte, he] at hval
      exact absurd (hval.symm.trans hinv) (by decide)
    rw [ht.frameAt, VmSys.curPte, VmSys.pte, ht.lo, if_neg fun h => hne h.2, if_pos ⟨ht.cur, rfl⟩]

theorem fault_step (hi : FifoInv env x) (hc : keepsFrames env x (.fault v)) (n : ℕ) :
    ∃ y, faultStep env (n + 2) x (.fault v) = some y ∧ FifoInv env y ∧
      (mustSwap env x.sys v → VictimOldest x y v) := by
  obtain ⟨hv, hinv, hhead⟩ := hc
  cases hf : faultFrame env (touchPte x.sys x.sys.mmCurrent v) with
  | some f =>
    obtain ⟨y, h1, h2⟩ := fault_fresh hi hv hinv hf n
    exact ⟨y, h1, h2, fun h => absurd (hf.symm.trans h) (by simp)⟩
  | none =>
    obtain ⟨f, hfirst, hr⟩ := hhead hf
    obtain ⟨y, h1, h2, h3⟩ := fault_swap hi hv hinv hf hfirst hr n
    exact ⟨y, h1, h2, fun _ => h3⟩

theorem faultStep_inv (hi : FifoInv env x) {op : FaultOp} (hc : keepsFrames env x op) (n : ℕ) :
    ∃ y, faultStep env (n + 2) x op = some y ∧ FifoInv env y := by
  cases op with
  | fault v =>
    obtain ⟨y, h1, h2, -⟩ := fault_step hi hc n
    exact ⟨y, h1, h2⟩
  | switchTo mm =>
    exact ⟨_, if_pos hc, ⟨⟨hc, hi.owns.nodup, hi.owns.disjoint, hi.owns.small, hi.owns.owned,
      hi.owns.valid⟩, hi.count, hi.aged, hi.past⟩⟩
  | runs tlb hiAsid mem =>
    exact ⟨_, rfl, ⟨⟨hi.owns.cur, hi.owns.nodup, hi.owns.disjoint, hi.owns.small, hi.owns.owned,
      hi.owns.valid⟩, hi.count, hi.aged, hi.past⟩⟩

structure SpaceKept (env : VmEnv) (s : VmSys) (p : ℕ) : Prop where
  frames : ∀ f, f ∈ (s.mms p).fifo ↔
    ∃ v < userTop, (s.pte p v).tlbEntry.v = true ∧ (s.pte p v).tlbEntry.pfn = f
  nodup : (s.mms p).fifo.Nodup
  recorded : ∀ f ∈ (s.mms p).fifo, s.virt f < userTop ∧
    (s.pte p (s.virt f)).tlbEntry.v = true ∧ (s.pte p (s.virt f)).tlbEntry.pfn = f
  count : (s.mms p).pfNum = (s.mms p).fifo.length ∧ (s.mms p).pfNum ≤ env.limit
  onePage : ∀ v < userTop, ∀ w < userTop, (s.pte p v).tlbEntry.v = true →
    (s.pte p w).tlbEntry.v = true → (s.pte p v).tlbEntry.pfn = (s.pte p w).tlbEntry.pfn →
      vpn v = vpn w
  oneSpace : ∀ q ∈ env.procs, q ≠ p → ∀ v < userTop, ∀ w < userTop,
    (s.pte p v).tlbEntry.v = true → (s.pte q w).tlbEntry.v = true →
      (s.pte p v).tlbEntry.pfn ≠ (s.pte q w).tlbEntry.pfn

theorem FifoInv.spaceKept (hi : FifoInv env x) {p : ℕ} (hp : p ∈ env.procs) :
    SpaceKept env x.sys p where
  frames f := by
    constructor
    · intro hf
      obtain ⟨h1, h2, h3⟩ := hi.owns.owned p hp f hf
      exact ⟨x.sys.virt f, h1, h2, h3⟩
    · rintro ⟨v, hv, hval, rfl⟩
      exact (hi.owns.valid p hp v hv hval).1
  nodup := hi.owns.nodup p hp
  recorded := hi.owns.owned p hp
  count := hi.count p hp
  onePage v hv w hw h1 h2 he := by
    have h3 := (hi.owns.valid p hp v hv h1).2
    have h4 := (hi.owns.valid p hp w hw h2).2
    rw [← h3, he, h4]
  oneSpace q hq hne v hv w hw h1 h2 he := by
    have h3 := (hi.owns.valid p hp v hv h1).1
    have h4 := (hi.owns.valid q hq w hw h2).1
    rw [← he] at h4
    exact hne (hi.owns.disjoint q hq p hp _ h4 h3)

end Invariant

end OurOS
