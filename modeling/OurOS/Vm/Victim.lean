import OurOS.Vm.VmFree

set_option linter.style.nameCheck false

namespace OurOS

inductive MemoryOp
  | faults (op : FaultOp)
  | renew (mm asid : ℕ)

/-- `renew` ends the process that owns the address space `mm` and gives the space to a new one. -/
def memoryStep (env : VmEnv) (fuel : ℕ) (x : FaultSys) : MemoryOp → Option FaultSys
  | .faults op => faultStep env fuel x op
  | .renew mm asid =>
    if mm ≠ x.sys.mmCurrent then
      let s := (freeMmStruct x.sys mm).1
      some { x with sys := { s with mms := Function.update s.mms mm (createMmStruct asid) } }
    else none

def faulting (s : VmSys) (v : ℕ) : VmSys :=
  { touchPte s s.mmCurrent v with clock := s.clock + 1 }

def copyOut (access : VmSys → ℕ → Option (VmSys × ℕ)) (v block i : ℕ) (s : VmSys) : Option VmSys :=
  (List.range i).foldlM (fun s i => do
    let (s, byte) ← userLoad access s (v + i)
    return writeSwapByte s block i byte) s

def copyIn (access : VmSys → ℕ → Option (VmSys × ℕ)) (v block i : ℕ) (s : VmSys) : Option VmSys :=
  (List.range i).foldlM (fun s i => userStore access s (v + i) (s.swapFile block i)) s

def swapBlock (env : VmEnv) (s : VmSys) (out : ℕ) : PagePool × ℕ :=
  if (s.curPte out).info = 0 then allocSwapBlock env s.pool else (s.pool, (s.curPte out).info)

def beforeLoad (u : VmSys) (out block v : ℕ) : VmSys :=
  touchPte (setCurPte u out fun pte => { pte with info := block }) u.mmCurrent v

inductive SwapAccess (env : VmEnv) (access : VmSys → ℕ → Option (VmSys × ℕ)) (s : VmSys) (v : ℕ) :
    VmSys → ℕ → Prop
  | out {page i : ℕ} {u : VmSys} : s.cur.fifo.head? = some page → i < pageSize →
      copyOut access (s.virt page) (swapBlock env s (s.virt page)).2 i
        { touchPte s s.mmCurrent (s.virt page) with
          pool := (swapBlock env s (s.virt page)).1 } = some u →
      SwapAccess env access s v u (s.virt page + i)
  | back {page block i : ℕ} {u w : VmSys} : s.cur.fifo.head? = some page → i < pageSize →
      writePageToDisk env access (touchPte s s.mmCurrent (s.virt page)) (s.virt page)
        (s.curPte (s.virt page)).info = some (u, block) →
      ((beforeLoad u (s.virt page) block v).curPte v).info ≠ 0 →
      copyIn access (s.virt page) ((beforeLoad u (s.virt page) block v).curPte v).info i
        (beforeLoad u (s.virt page) block v) = some w →
      SwapAccess env access s v w (s.virt page + i)

/-- The states in which `swap_one_page` is called while a fault at `v` in `s` is served; `calls` are
those of the accesses it makes. -/
inductive FaultCalls (env : VmEnv) (access : VmSys → ℕ → Option (VmSys × ℕ))
    (calls : VmSys → ℕ → VmSys → Prop) (s : VmSys) (v : ℕ) : VmSys → Prop
  | own : mustSwap env s v → FaultCalls env access calls s v (faulting s v)
  | nested {u t : VmSys} {w : ℕ} : mustSwap env s v →
      SwapAccess env access (faulting s v) v u w → calls u w t → FaultCalls env access calls s v t

def tlbServes (s : VmSys) (v : ℕ) : Prop :=
  ∃ i, tlbp s (vpn2 v) s.hiAsid = some i ∧ ((s.tlb i).half v).v = true

/-- As `vmAccess`, for the states in which `swap_one_page` is called on the way. -/
def accessCalls (env : VmEnv) : ℕ → VmSys → ℕ → VmSys → Prop
  | 0, _, _, _ => False
  | fuel + 1, s, v, t => v < userTop ∧ ¬ tlbServes s v ∧
    ((s.curPte v).tlbEntry.v = false ∧
        FaultCalls env (vmAccess env fuel) (accessCalls env fuel) (touchPte s s.mmCurrent v) v t ∨
      ∃ u, __tlbRefill env (vmAccess env fuel) s v (tlbp s (vpn2 v) s.hiAsid) = some u ∧
        accessCalls env fuel u v t)

structure QueueInv (env : VmEnv) (s : VmSys) : Prop where
  cur : s.mmCurrent ∈ env.procs
  count : ∀ p ∈ env.procs, (s.mms p).pfNum = (s.mms p).fifo.length
  small : ∀ p ∈ env.procs, ∀ f ∈ (s.mms p).fifo, f < machinePageNum
  disjoint : ∀ p ∈ env.procs, ∀ q ∈ env.procs, ∀ f ∈ (s.mms p).fifo, f ∈ (s.mms q).fifo → p = q

structure RealVictim (env : VmEnv) (s : VmSys) (f : ℕ) : Prop where
  head : s.cur.fifo.head? = some f
  small : f < machinePageNum
  own : ∀ p ∈ env.procs, p ≠ s.mmCurrent → f ∉ (s.mms p).fifo

/-- `t` has the queues of `s`, up to the order of the current one and to what was added to it. -/
structure Served (env : VmEnv) (s t : VmSys) : Prop where
  inv : QueueInv env t
  cur : t.mmCurrent = s.mmCurrent
  kept : ∀ f ∈ s.cur.fifo, f ∈ t.cur.fifo

section Serve

variable {env : VmEnv} {s t u : VmSys} {v f : ℕ} {access : VmSys → ℕ → Option (VmSys × ℕ)}
  {calls : VmSys → ℕ → VmSys → Prop}

theorem Served.refl (hi : QueueInv env s) : Served env s s := ⟨hi, rfl, fun _ h => h⟩

theorem Served.trans (h₁ : Served env s t) (h₂ : Served env t u) : Served env s u :=
  ⟨h₂.inv, h₂.cur.trans h₁.cur, fun f hf => h₂.kept f (h₁.kept f hf)⟩

theorem QueueInv.congr (hi : QueueInv env s) (h : SameTables s t) : QueueInv env t where
  cur := h.cur ▸ hi.cur
  count p hp := by
    rw [h.pfNum, h.fifo]
    exact hi.count p hp
  small p hp f hf := hi.small p hp f (h.fifo p ▸ hf)
  disjoint p hp q hq f hf hf' := hi.disjoint p hp q hq f (h.fifo p ▸ hf) (h.fifo q ▸ hf')

theorem Served.of_same (hi : QueueInv env s) (h : SameTables s t) : Served env s t where
  inv := hi.congr h
  cur := h.cur
  kept f hf := by
    rw [VmSys.cur, h.cur, h.fifo]
    exact hf

theorem QueueInv.victim (hi : QueueInv env s) (hne : s.cur.fifo ≠ []) : ∃ f, RealVictim env s f := by
  obtain ⟨f, hf⟩ := List.ne_nil_iff_exists_cons.mp hne
  obtain ⟨l, hl⟩ := hf
  have hmem : f ∈ s.cur.fifo := hl ▸ List.mem_cons_self
  refine ⟨f, by rw [hl]; rfl, hi.small _ hi.cur f hmem, fun p hp hpc hfp => hpc ?_⟩
  exact hi.disjoint p hp _ hi.cur f hfp hmem

theorem Served.requeue {l : List ℕ} {k : ℕ} (hi : QueueInv env s) (hcur : t.mmCurrent = s.mmCurrent)
    (hnum : ∀ p, (t.mms p).pfNum = if p = s.mmCurrent then k else (s.mms p).pfNum)
    (hfifo : ∀ p, (t.mms p).fifo = if p = s.mmCurrent then l else (s.mms p).fifo)
    (hk : k = l.length) (hkept : ∀ f ∈ s.cur.fifo, f ∈ l)
    (hnew : ∀ f ∈ l, f ∈ s.cur.fifo ∨ f < machinePageNum ∧ ∀ p ∈ env.procs, f ∉ (s.mms p).fifo) :
    Served env s t := by
  have hcurl : t.cur.fifo = l := by rw [VmSys.cur, hcur, hfifo, if_pos rfl]
  have hown : ∀ p ∈ env.procs, p ≠ s.mmCurrent → ∀ f ∈ l, f ∉ (s.mms p).fifo := by
    intro p hp hpc f hf hfp
    rcases hnew f hf with h | h
    · exact hpc (hi.disjoint p hp _ hi.cur f hfp h)
    · exact h.2 p hp hfp
  refine ⟨⟨hcur ▸ hi.cur, fun p hp => ?_, fun p hp f hf => ?_, fun p hp q hq f hf hf' => ?_⟩, hcur,
    fun f hf => hcurl ▸ hkept f hf⟩
  · rw [hnum, hfifo]
    split_ifs
    exacts [hk, hi.count p hp]
  · rw [hfifo] at hf
    split_ifs at hf
    · rcases hnew f hf with h | h
      exacts [hi.small _ hi.cur f h, h.1]
    · exact hi.small p hp f hf
  · rw [hfifo] at hf hf'
    split_ifs at hf hf' with hpc hqc hqc
    · rw [hpc, hqc]
    · exact absurd hf' (hown q hq hqc f hf)
    · exact absurd hf (hown p hp hpc f hf')
    · exact hi.disjoint p hp q hq f hf hf'

theorem setCurPte_served {g : Pte → Pte} (hi : QueueInv env s) : Served env s (setCurPte s v g) := by
  have hmm := setCurPte_mm s v g
  refine .requeue (l := s.cur.fifo) (k := s.cur.pfNum) hi rfl (fun p => ?_) (fun p => ?_)
    (hi.count _ hi.cur) (fun _ h => h) fun f hf => .inl hf
  · rw [(hmm p).2.1]
    split_ifs with e
    exacts [by rw [e, VmSys.cur], rfl]
  · rw [(hmm p).2.2]
    split_ifs with e
    exacts [by rw [e, VmSys.cur], rfl]

theorem touchPte_served (hi : QueueInv env s) (p v : ℕ) : Served env s (touchPte s p v) :=
  .of_same hi (touchPte_same s p v).tables

theorem faulting_served (hi : QueueInv env s) (v : ℕ) : Served env s (faulting s v) := by
  have h := (touchPte_same s s.mmCurrent v).tables
  exact .of_same hi ⟨h.cur, h.virt, h.pfNum, h.fifo, h.pte⟩

def AccessServes (env : VmEnv) (access : VmSys → ℕ → Option (VmSys × ℕ)) : Prop :=
  ∀ s v t pfn, QueueInv env s → access s v = some (t, pfn) → Served env s t

theorem copyOut_served (ha : AccessServes env access) {block i : ℕ} (hi : QueueInv env s)
    (hr : copyOut access v block i s = some t) : Served env s t := by
  refine foldlM_invariant (P := fun t => Served env s t) (fun u j w hu hw => ?_) (.refl hi) hr
  obtain ⟨⟨u', byte⟩, h1, h2⟩ := Option.bind_eq_some_iff.mp hw
  obtain ⟨⟨u'', pfn⟩, h3, h4⟩ := Option.bind_eq_some_iff.mp h1
  obtain ⟨rfl, -⟩ := Prod.mk.inj (Option.some.inj h4)
  obtain rfl := Option.some.inj h2
  have h5 := hu.trans (ha _ _ _ _ hu.inv h3)
  exact h5.trans (.of_same h5.inv ⟨rfl, rfl, fun _ => rfl, fun _ => rfl, fun _ _ => rfl⟩)

theorem copyIn_served (ha : AccessServes env access) {block i : ℕ} (hi : QueueInv env s)
    (hr : copyIn access v block i s = some t) : Served env s t := by
  refine foldlM_invariant (P := fun t => Served env s t) (fun u j w hu hw => ?_) (.refl hi) hr
  obtain ⟨⟨u', pfn⟩, h1, h2⟩ := Option.bind_eq_some_iff.mp hw
  obtain rfl := Option.some.inj h2
  have h3 := hu.trans (ha _ _ _ _ hu.inv h1)
  exact h3.trans (.of_same h3.inv ⟨rfl, rfl, fun _ => rfl, fun _ => rfl, fun _ _ => rfl⟩)

theorem setPool_served (hi : QueueInv env s) (pool : PagePool) :
    Served env s { s with pool := pool } :=
  .of_same hi ⟨rfl, rfl, fun _ => rfl, fun _ => rfl, fun _ _ => rfl⟩

theorem writePageToDisk_served (ha : AccessServes env access) {blockNum b : ℕ} (hi : QueueInv env s)
    (hr : writePageToDisk env access s v blockNum = some (t, b)) : Served env s t := by
  unfold writePageToDisk at hr
  split_ifs at hr with h0
  · obtain ⟨u, h1, h2⟩ := Option.bind_eq_some_iff.mp hr
    obtain ⟨rfl, -⟩ := Prod.mk.inj (Option.some.inj h2)
    have hp := setPool_served hi (allocSwapBlock env s.pool).1
    exact hp.trans (copyOut_served ha hp.inv h1)
  · obtain ⟨u, h1, h2⟩ := Option.bind_eq_some_iff.mp hr
    obtain ⟨rfl, -⟩ := Prod.mk.inj (Option.some.inj h2)
    exact copyOut_served ha hi h1

theorem loadPageFromDisk_served (ha : AccessServes env access) {block : ℕ} (hi : QueueInv env s)
    (hr : loadPageFromDisk access s v block = some t) : Served env s t := by
  unfold loadPageFromDisk at hr
  split_ifs at hr with h0
  · obtain rfl := Option.some.inj hr
    exact .refl hi
  · exact copyIn_served ha hi hr

theorem releasePage_served (hi : QueueInv env s) (hf : f ∈ s.cur.fifo) (out v : ℕ) :
    Served env s (releasePage s f out v) := by
  have hr := releasePage_tables s f out v
  refine .requeue (k := s.cur.pfNum) hi hr.cur (fun p => ?_) hr.fifo ?_ (fun g hg => ?_)
    fun g hg => .inl ?_
  · rw [hr.pfNum]
    split_ifs with e
    exacts [by rw [e, VmSys.cur], rfl]
  · rw [List.length_append, List.length_singleton, List.length_erase_add_one hf]
    exact hi.count _ hi.cur
  · by_cases e : g = f
    · exact List.mem_append_right _ (List.mem_singleton.mpr e)
    · exact List.mem_append_left _ ((List.mem_erase_of_ne e).mpr hg)
  · rcases List.mem_append.mp hg with h | h
    · exact List.mem_of_mem_erase h
    · rwa [List.mem_singleton.mp h]

theorem beforeLoad_served (hi : QueueInv env s) (out block v : ℕ) :
    Served env s (beforeLoad s out block v) := by
  have h := setCurPte_served (g := fun pte => { pte with info := block }) (v := out) hi
  exact h.trans (touchPte_served h.inv _ _)

theorem swapOnePage_served (ha : AccessServes env access) {paddr : ℕ} (hi : QueueInv env s)
    (hr : swapOnePage env access s v = some (t, paddr)) : Served env s t := by
  obtain ⟨page, hpage, hr⟩ := Option.bind_eq_some_iff.mp hr
  obtain ⟨⟨s2, block⟩, hw, hr⟩ := Option.bind_eq_some_iff.mp hr
  obtain ⟨s5, hl, hr⟩ := Option.bind_eq_some_iff.mp hr
  obtain ⟨rfl, -⟩ := Prod.mk.inj (Option.some.inj hr)
  have h1 := touchPte_served hi s.mmCurrent (s.virt page)
  have h2 := h1.trans (writePageToDisk_served ha h1.inv hw)
  have h4 := h2.trans (beforeLoad_served h2.inv (s.virt page) block v)
  have h5 := h4.trans (loadPageFromDisk_served ha h4.inv hl)
  exact h5.trans (releasePage_served h5.inv (h5.kept page (List.mem_of_head? hpage)) _ _)

theorem queueFresh_served (hi : QueueInv env s) (hf : f < machinePageNum)
    (hnew : ∀ p ∈ env.procs, f ∉ (s.mms p).fifo) :
    Served env s (queuePage s f v (s.cur.fifo ++ [f]) (s.cur.pfNum + 1)) := by
  refine .requeue hi rfl (queuePage_pfNum s f v _ _) (fun p => (queuePage_mm s f v _ _ p).2.2) ?_
    (fun g hg => List.mem_append_left _ hg) fun g hg => ?_
  · rw [List.length_append, List.length_singleton]
    exact congrArg (· + 1) (hi.count _ hi.cur)
  · rcases List.mem_append.mp hg with h | h
    · exact .inl h
    · rw [List.mem_singleton.mp h]
      exact .inr ⟨hf, hnew⟩

theorem doPagefault_served (ha : AccessServes env access) (hi : QueueInv env s)
    (hr : doPagefault env access s v = some t) : Served env s t := by
  have h1 := faulting_served hi v
  unfold doPagefault at hr
  dsimp only [touchPte_cur] at hr
  cases hf : faultFrame env (touchPte s s.mmCurrent v) with
  | none =>
    rw [hf] at hr
    obtain ⟨⟨u, paddr⟩, hu, hr⟩ := Option.bind_eq_some_iff.mp hr
    obtain rfl := Option.some.inj hr
    have h2 := h1.trans (swapOnePage_served ha h1.inv hu)
    exact h2.trans (setCurPte_served h2.inv)
  | some f =>
    rw [hf] at hr
    obtain rfl := Option.some.inj hr
    obtain ⟨hsmall, hnew⟩ := faultFrame_some hf
    have h2 := h1.trans (queueFresh_served (v := v) h1.inv hsmall hnew)
    exact h2.trans (setCurPte_served h2.inv)

theorem refill_served (ha : AccessServes env access) (hi : QueueInv env s) {index : Option ℕ}
    (hr : __tlbRefill env access s v index = some t) : Served env s t := by
  have h1 := touchPte_served hi s.mmCurrent v
  unfold __tlbRefill at hr
  dsimp only at hr
  split_ifs at hr
  · refine h1.trans (.of_same h1.inv ?_)
    cases index with
    | none =>
      obtain rfl := Option.some.inj hr
      exact ⟨rfl, rfl, fun _ => rfl, fun _ => rfl, fun _ _ => rfl⟩
    | some i =>
      obtain rfl := Option.some.inj hr
      exact ⟨rfl, rfl, fun _ => rfl, fun _ => rfl, fun _ _ => rfl⟩
  · exact h1.trans (doPagefault_served ha h1.inv hr)

theorem vmAccess_served (n : ℕ) : AccessServes env (vmAccess env n) := by
  induction n with
  | zero => exact fun s v t pfn _ hr => absurd hr (by simp [vmAccess])
  | succ n ih =>
    intro s v t pfn hi hr
    have hagain : ∀ index, (__tlbRefill env (vmAccess env n) s v index).bind (vmAccess env n · v) =
        some (t, pfn) → Served env s t := by
      intro index h
      obtain ⟨u, hu, h⟩ := Option.bind_eq_some_iff.mp h
      have h1 := refill_served ih hi hu
      exact h1.trans (ih u v t pfn h1.inv h)
    rw [vmAccess] at hr
    split_ifs at hr
    · obtain ⟨rfl, -⟩ := Prod.mk.inj (Option.some.inj hr)
      exact .refl hi
    · split at hr
      · dsimp only at hr
        split_ifs at hr
        · obtain ⟨rfl, -⟩ := Prod.mk.inj (Option.some.inj hr)
          exact .refl hi
        · exact hagain _ hr
      · exact hagain _ hr

theorem Served.nonempty (h : Served env s t) (hne : s.cur.fifo ≠ []) : t.cur.fifo ≠ [] := by
  obtain ⟨f, hf⟩ := List.exists_mem_of_ne_nil _ hne
  exact List.ne_nil_of_mem (h.kept f hf)

theorem SwapAccess.served (ha : AccessServes env access) {w : ℕ} (hi : QueueInv env s)
    (hs : SwapAccess env access s v u w) : Served env s u := by
  cases hs with
  | @out page i _ _ _ hc =>
    have h1 := touchPte_served hi s.mmCurrent (s.virt page)
    have h2 := h1.trans (setPool_served h1.inv (swapBlock env s (s.virt page)).1)
    exact h2.trans (copyOut_served ha h2.inv hc)
  | @back page block i u' _ _ _ hw _ hc =>
    have h1 := touchPte_served hi s.mmCurrent (s.virt page)
    have h2 := h1.trans (writePageToDisk_served ha h1.inv hw)
    have h3 := h2.trans (beforeLoad_served h2.inv (s.virt page) block v)
    exact h3.trans (copyIn_served ha h3.inv hc)

/-- No frame leaves the queue of the process while a fault is served, so the calls that the copies
make find what the first one found. -/
theorem FaultCalls.served (ha : AccessServes env access)
    (hcalls : ∀ s v t, QueueInv env s → s.cur.fifo ≠ [] → calls s v t → Served env s t)
    (hi : QueueInv env s) (hne : mustSwap env s v → s.cur.fifo ≠ [])
    (hc : FaultCalls env access calls s v t) : Served env s t := by
  have h1 := faulting_served hi v
  cases hc with
  | own => exact h1
  | nested hswap hs hc =>
    have h2 := h1.trans (hs.served ha h1.inv)
    exact h2.trans (hcalls _ _ _ h2.inv (h2.nonempty (hne hswap)) hc)

theorem accessCalls_served (n : ℕ) : ∀ s v t, QueueInv env s → s.cur.fifo ≠ [] →
    accessCalls env n s v t → Served env s t := by
  induction n with
  | zero => exact fun _ _ _ _ _ h => h.elim
  | succ n ih =>
    rintro s v t hi hne ⟨-, -, ⟨-, h⟩ | ⟨u, hu, h⟩⟩
    · have h1 := touchPte_served hi s.mmCurrent v
      exact h1.trans (h.served (vmAccess_served n) ih h1.inv fun _ => h1.nonempty hne)
    · have h1 := refill_served (vmAccess_served n) hi hu
      exact h1.trans (ih u v t h1.inv (h1.nonempty hne) h)

structure OtherQueues (s t : VmSys) (mm : ℕ) : Prop where
  cur : t.mmCurrent = s.mmCurrent
  pfNum : ∀ p, p ≠ mm → (t.mms p).pfNum = (s.mms p).pfNum
  fifo : ∀ p, p ≠ mm → (t.mms p).fifo = (s.mms p).fifo

theorem unmapPage_other (s : VmSys) (mm page : ℕ) : OtherQueues s (unmapPage s mm page) mm := by
  have h := tlbReset_tables { s with mms := Function.update s.mms mm { s.mms mm with
    pgd := setPte (s.mms mm).pgd (s.virt page) invalidated } } mm (s.virt page)
  refine ⟨h.cur, fun p hp => ?_, fun p hp => ?_⟩
  · simp only [unmapPage, Function.update_of_ne hp]
    rw [h.pfNum]
    exact congrArg MmStruct.pfNum (Function.update_of_ne hp _ _)
  · simp only [unmapPage, Function.update_of_ne hp]
    rw [h.fifo]
    exact congrArg MmStruct.fifo (Function.update_of_ne hp _ _)

theorem freeFrames_other (mm : ℕ) (pages : List ℕ) (s : VmSys) :
    OtherQueues s (freeFrames mm s pages).1 mm := by
  induction pages generalizing s with
  | nil => exact ⟨rfl, fun _ _ => rfl, fun _ _ => rfl⟩
  | cons page pages ih =>
    have h1 := unmapPage_other s mm page
    have h2 := ih (unmapPage s mm page)
    exact ⟨h2.cur.trans h1.cur, fun p hp => (h2.pfNum p hp).trans (h1.pfNum p hp),
      fun p hp => (h2.fifo p hp).trans (h1.fifo p hp)⟩

theorem QueueInv.renew (hi : QueueInv env s) {mm : ℕ} (h : OtherQueues s t mm) (asid : ℕ) :
    QueueInv env { t with mms := Function.update t.mms mm (createMmStruct asid) } := by
  have hself : (Function.update t.mms mm (createMmStruct asid) mm).fifo = [] := by
    rw [Function.update_self]
    rfl
  have hfifo : ∀ p f, f ∈ (Function.update t.mms mm (createMmStruct asid) p).fifo →
      f ∈ (s.mms p).fifo := by
    intro p f hf
    by_cases e : p = mm
    · rw [e, hself] at hf
      exact absurd hf List.not_mem_nil
    · rwa [Function.update_of_ne e, h.fifo p e] at hf
  refine ⟨h.cur ▸ hi.cur, fun p hp => ?_, fun p hp f hf => hi.small p hp f (hfifo p f hf),
    fun p hp q hq f hf hf' => hi.disjoint p hp q hq f (hfifo p f hf) (hfifo q f hf')⟩
  by_cases e : p = mm
  · rw [e]
    dsimp only
    rw [Function.update_self]
    rfl
  · dsimp only
    rw [Function.update_of_ne e, h.pfNum p e, h.fifo p e]
    exact hi.count p hp

theorem FaultCalls.mustSwap (hc : FaultCalls env access calls s v t) : mustSwap env s v := by
  cases hc <;> assumption

end Serve

/-- Every call of `swap_one_page` made for a fault finds a page of the faulting process. -/
def findsVictim (env : VmEnv) (fuel : ℕ) (x : FaultSys) : MemoryOp → Prop
  | .faults (.fault v) => ∀ t,
    FaultCalls env (vmAccess env fuel) (accessCalls env fuel) x.sys v t → ∃ f, RealVictim env t f
  | _ => True

/-- A process that owns no frame gets one for its fault. -/
def getsFirstFrame (env : VmEnv) (x : FaultSys) : MemoryOp → Prop
  | .faults (.fault v) =>
    x.sys.cur.pfNum = 0 → (faultFrame env (touchPte x.sys x.sys.mmCurrent v)).isSome = true
  | _ => True

section Victims

variable {env : VmEnv} {x y : FaultSys} {fuel : ℕ} {op : MemoryOp}

theorem memoryStep_inv (hi : QueueInv env x.sys) (hr : memoryStep env fuel x op = some y) :
    QueueInv env y.sys := by
  cases op with
  | faults op =>
    cases op with
    | fault v =>
      rw [memoryStep, faultStep] at hr
      split_ifs at hr
      obtain ⟨s, hs, rfl⟩ := Option.map_eq_some_iff.mp hr
      exact (doPagefault_served (vmAccess_served fuel) hi hs).inv
    | switchTo mm =>
      rw [memoryStep, faultStep] at hr
      split_ifs at hr with hmm
      obtain rfl := Option.some.inj hr
      exact ⟨hmm, hi.count, hi.small, hi.disjoint⟩
    | runs tlb hiAsid mem =>
      obtain rfl := Option.some.inj hr
      exact ⟨hi.cur, hi.count, hi.small, hi.disjoint⟩
  | renew mm asid =>
    rw [memoryStep] at hr
    split_ifs at hr
    obtain rfl := Option.some.inj hr
    exact hi.renew (freeFrames_other mm _ x.sys) asid

theorem findsVictim_iff (hi : QueueInv env x.sys) :
    findsVictim env fuel x op ↔ getsFirstFrame env x op := by
  cases op with
  | renew mm asid => exact Iff.rfl
  | faults op =>
    cases op with
    | switchTo mm => exact Iff.rfl
    | runs tlb hiAsid mem => exact Iff.rfl
    | fault v =>
      have hcount : x.sys.cur.pfNum = x.sys.cur.fifo.length := hi.count _ hi.cur
      constructor
      · intro h h0
        by_contra hnone
        rw [Bool.not_eq_true, Option.isSome_eq_false_iff, Option.isNone_iff_eq_none] at hnone
        obtain ⟨f, hf⟩ := h _ (.own hnone)
        have hnil : x.sys.cur.fifo = [] := List.length_eq_zero_iff.mp (hcount.symm.trans h0)
        have hsame : (faulting x.sys v).cur.fifo = x.sys.cur.fifo :=
          (touchPte_same x.sys x.sys.mmCurrent v).fifo _
        have hhead := hf.head
        rw [hsame, hnil] at hhead
        exact absurd hhead (by simp)
      · intro h t hc
        have hne : mustSwap env x.sys v → x.sys.cur.fifo ≠ [] := by
          intro hswap hnil
          have hsome := h (by rw [hcount, hnil, List.length_nil])
          rw [hswap] at hsome
          exact absurd hsome (by decide)
        have hs := hc.served (vmAccess_served fuel) (accessCalls_served fuel) hi hne
        exact hs.inv.victim (hs.nonempty (hne hc.mustSwap))

variable (env fuel) in
theorem memoryRun_victims_iff (asid : ℕ → ℕ) {s : VmSys} (hcur : s.mmCurrent ∈ env.procs)
    (ops : List MemoryOp) :
    RunMeets (memoryStep env fuel) (findsVictim env fuel) (faultStart asid s) ops ↔
      RunMeets (memoryStep env fuel) (getsFirstFrame env) (faultStart asid s) ops := by
  have hstart : QueueInv env (faultStart asid s).sys :=
    ⟨hcur, fun _ _ => rfl, fun _ _ f hf => absurd hf List.not_mem_nil,
      fun _ _ _ _ f hf => absurd hf List.not_mem_nil⟩
  exact runMeets_iff (I := fun x => QueueInv env x.sys) (A := fun _ => True)
    (fun x op hi _ => findsVictim_iff hi) (fun x op y hi _ _ hr => memoryStep_inv hi hr) hstart
    fun _ _ => trivial

end Victims

def lastFrame : VmEnv where
  procs := [1, 2]
  limit := machinePageNum
  random := VmSys.clock
  allocOnePage s := if (s.mms 1).fifo = [] ∧ (s.mms 2).fifo = [] then some 5000 else none
  behindEntry := fun _ => 0
  alloc_small s pfn h := by
    split_ifs at h
    obtain rfl := Option.some.inj h
    decide
  alloc_fresh s pfn h := by
    split_ifs at h with hf
    intro p hp
    rcases List.mem_pair.mp hp with rfl | rfl
    · rw [hf.1]
      exact List.not_mem_nil
    · rw [hf.2]
      exact List.not_mem_nil

def lastBoot : VmBoot lastFrame where
  asid := id
  mm := 1
  virt := fun _ => 0
  mem := fun _ _ => 0
  swapFile := fun _ _ => 0
  mm_mem := by decide
  asid_inj := by decide

theorem memoryRun_victims_small : RunMeets (memoryStep lastFrame 2) (findsVictim lastFrame 2)
    (faultStart id (vmStart lastBoot))
    [.faults (.fault 0x4000), .renew 2 7, .faults (.fault 0x5000)] := by
  refine (memoryRun_victims_iff lastFrame 2 id (s := vmStart lastBoot) (by decide) _).mpr
    ⟨fun _ => by decide +kernel, fun t ht => ⟨trivial, fun u hu => ⟨fun h0 => ?_, fun _ _ => trivial⟩⟩⟩
  have h : ∀ u ∈ runOps (memoryStep lastFrame 2) (faultStart id (vmStart lastBoot))
      [.faults (.fault 0x4000), .renew 2 7], u.sys.cur.pfNum = 1 := by decide +kernel
  refine absurd (h0.symm.trans (h u ?_)) (by decide)
  rw [runOps, ht, Option.bind_some, runOps, hu]
  rfl

theorem lastRun_isSome : (runOps (memoryStep lastFrame 2) (faultStart id (vmStart lastBoot))
    [.faults (.fault 0x4000), .faults (.switchTo 2)]).isSome = true := by
  decide +kernel

def lastRun : FaultSys := Option.get _ lastRun_isSome

/-- The process 2 finds the only frame taken, and has none to give up. -/
theorem memoryRun_no_victim :
    ¬ ∀ (env : VmEnv) (fuel : ℕ) (asid : ℕ → ℕ) (s : VmSys) (ops : List MemoryOp),
      s.mmCurrent ∈ env.procs →
        RunMeets (memoryStep env fuel) (findsVictim env fuel) (faultStart asid s) ops := by
  intro h
  have hrun := h lastFrame 2 id (vmStart lastBoot)
    ([.faults (.fault 0x4000), .faults (.switchTo 2)] ++ [.faults (.fault 0x4000)]) (by decide)
  have hlast : runOps (memoryStep lastFrame 2) (faultStart id (vmStart lastBoot))
      [.faults (.fault 0x4000), .faults (.switchTo 2)] = some lastRun := Option.some_get _ ▸ rfl
  have hswap : mustSwap lastFrame lastRun.sys 0x4000 := by
    rw [mustSwap, ← Option.isNone_iff_eq_none]
    decide +kernel
  obtain ⟨f, hf⟩ := (runMeets_append hrun hlast).1 _ (.own hswap)
  have hnone : (faulting lastRun.sys 0x4000).cur.fifo.head? = none := by decide +kernel
  exact absurd (hnone.symm.trans hf.head) (by simp)

end OurOS
