import OurOS.Vm.VmInv

set_option linter.style.nameCheck false

namespace OurOS

def VmSys.frameAt (s : VmSys) (v : ℕ) : ℕ := (s.curPte v).tlbEntry.pfn

def VmSys.byteAt (s : VmSys) (v : ℕ) : ℕ := s.mem (s.frameAt v) (v % pageSize)

def rangeResident (s : VmSys) (v : ℕ) : Prop :=
  ∀ i < pageSize, v + i < userTop ∧ (s.curPte (v + i)).tlbEntry.v = true

theorem SameMms.rangeResident {s t : VmSys} (h : SameMms s t) {v : ℕ}
    (hr : rangeResident s v) : rangeResident t v := by
  intro i hi
  rw [h.curPte]
  exact hr i hi

section Copy

variable {env : VmEnv} {s : VmSys} {v : ℕ}

structure CopiedOut (env : VmEnv) (s t : VmSys) (v block n : ℕ) : Prop where
  inv : VmInv env t
  same : SameMms s t
  mem : t.mem = s.mem
  pool : t.pool = s.pool
  bytes : ∀ i < n, t.swapFile block i = s.byteAt (v + i)
  other : ∀ b, b ≠ block → t.swapFile b = s.swapFile b

theorem copyOut_step (hr : rangeResident s v) (n block : ℕ) {i : ℕ} (hi : i < pageSize)
    {t : VmSys} (ht : CopiedOut env s t v block i) :
    ∃ u, (do
        let (t, byte) ← userLoad (vmAccess env (n + 2)) t (v + i)
        return writeSwapByte t block i byte) = some u ∧ CopiedOut env s u v block (i + 1) := by
  obtain ⟨hv, hval⟩ := hr i hi
  rw [← ht.same.curPte] at hval
  obtain ⟨u, h1, h2, h3, h4⟩ := access_resident ht.inv hv hval n
  have hbyte : u.mem (t.curPte (v + i)).tlbEntry.pfn ((v + i) % pageSize) = s.byteAt (v + i) := by
    rw [h3.mem, ht.mem, ht.same.curPte]
    rfl
  have hlo : SameLo u (writeSwapByte u block i (s.byteAt (v + i))) :=
    ⟨rfl, rfl, rfl, fun _ => rfl, fun _ => rfl, fun _ _ => rfl⟩
  refine ⟨writeSwapByte u block i (s.byteAt (v + i)), ?_, hlo.vmInv rfl h4,
    ⟨h2.cur.trans ht.same.cur, h2.hiAsid.trans ht.same.hiAsid, h2.virt.trans ht.same.virt,
      fun p => (h2.asid p).trans (ht.same.asid p), fun p => (h2.pfNum p).trans (ht.same.pfNum p),
      fun p => (h2.fifo p).trans (ht.same.fifo p), fun p m => (h2.pte p m).trans (ht.same.pte p m)⟩,
    h3.mem.trans ht.mem, h3.pool.trans ht.pool, fun j hj => ?_, fun b hb => ?_⟩
  · simp [userLoad, h1, hbyte]
  · simp only [writeSwapByte, Function.update_self]
    by_cases e : j = i
    · rw [e, Function.update_self]
    · rw [Function.update_of_ne e, h3.swapFile, ht.bytes j (by omega)]
  · simp only [writeSwapByte, Function.update_of_ne hb, h3.swapFile, ht.other b hb]

theorem writePageToDisk_spec (hi : VmInv env s) (hr : rangeResident s v) (n blockNum : ℕ) :
    ∃ t b pool, writePageToDisk env (vmAccess env (n + 2)) s v blockNum = some (t, b) ∧
      (if blockNum = 0 then allocSwapBlock env s.pool else (s.pool, blockNum)) = (pool, b) ∧
      CopiedOut env { s with pool := pool } t v b pageSize := by
  have hpool : ∀ pool, VmInv env { s with pool := pool } := fun pool =>
    SameLo.vmInv (s := s) ⟨rfl, rfl, rfl, fun _ => rfl, fun _ => rfl, fun _ _ => rfl⟩ rfl hi
  have hcopy : ∀ pool b, ∃ t, (List.range pageSize).foldlM (fun s i => do
      let (s, byte) ← userLoad (vmAccess env (n + 2)) s (v + i)
      return writeSwapByte s b i byte) { s with pool := pool } = some t ∧
        CopiedOut env { s with pool := pool } t v b pageSize := by
    intro pool b
    refine foldlM_range_spec (P := fun i t => CopiedOut env { s with pool := pool } t v b i) pageSize
      (fun i hi t ht => copyOut_step (s := { s with pool := pool }) hr n b hi ht) ?_
    exact ⟨hpool pool, ⟨rfl, rfl, rfl, fun _ => rfl, fun _ => rfl, fun _ => rfl, fun _ _ => rfl⟩, rfl,
      rfl, fun i hi => absurd hi (Nat.not_lt_zero i), fun _ _ => rfl⟩
  by_cases h0 : blockNum = 0
  · obtain ⟨t, h1, h2⟩ := hcopy (allocSwapBlock env s.pool).1 (allocSwapBlock env s.pool).2
    refine ⟨t, _, _, ?_, by rw [if_pos h0], h2⟩
    rw [writePageToDisk, if_pos h0]
    exact Option.bind_eq_some_iff.mpr ⟨t, h1, rfl⟩
  · obtain ⟨t, h1, h2⟩ := hcopy s.pool blockNum
    refine ⟨t, blockNum, s.pool, ?_, by rw [if_neg h0], h2⟩
    rw [writePageToDisk, if_neg h0]
    exact Option.bind_eq_some_iff.mpr ⟨t, h1, rfl⟩

structure CopiedIn (env : VmEnv) (s t : VmSys) (v block n : ℕ) : Prop where
  inv : VmInv env t
  same : SameMms s t
  pool : t.pool = s.pool
  swapFile : t.swapFile = s.swapFile
  bytes : ∀ i < n, t.mem (s.frameAt (v + i)) ((v + i) % pageSize) = s.swapFile block i
  other : ∀ f o, (∀ i < n, ¬ (f = s.frameAt (v + i) ∧ o = (v + i) % pageSize)) →
    t.mem f o = s.mem f o

theorem copyIn_step (hr : rangeResident s v) (n block : ℕ) {i : ℕ} (hi : i < pageSize)
    {t : VmSys} (ht : CopiedIn env s t v block i) :
    ∃ u, userStore (vmAccess env (n + 2)) t (v + i) (t.swapFile block i) = some u ∧
      CopiedIn env s u v block (i + 1) := by
  obtain ⟨hv, hval⟩ := hr i hi
  rw [← ht.same.curPte] at hval
  obtain ⟨u, h1, h2, h3, h4⟩ := access_resident ht.inv hv hval n
  have hframe : (t.curPte (v + i)).tlbEntry.pfn = s.frameAt (v + i) := by
    rw [ht.same.curPte]
    rfl
  have hmem : ∀ f o, (writeFrame u (s.frameAt (v + i)) ((v + i) % pageSize)
      (t.swapFile block i)).mem f o =
        if f = s.frameAt (v + i) ∧ o = (v + i) % pageSize then s.swapFile block i
        else t.mem f o := by
    intro f o
    simp only [writeFrame, h3.mem, ht.swapFile]
    by_cases e : f = s.frameAt (v + i)
    · rw [e, Function.update_self]
      by_cases e' : o = (v + i) % pageSize
      · rw [e', Function.update_self, if_pos ⟨rfl, rfl⟩]
      · rw [Function.update_of_ne e', if_neg fun h => e' h.2]
    · rw [Function.update_of_ne e, if_neg fun h => e h.1]
  have hlo : SameLo u (writeFrame u (s.frameAt (v + i)) ((v + i) % pageSize)
      (t.swapFile block i)) :=
    ⟨rfl, rfl, rfl, fun _ => rfl, fun _ => rfl, fun _ _ => rfl⟩
  refine ⟨_, ?_, hlo.vmInv rfl h4,
    ⟨h2.cur.trans ht.same.cur, h2.hiAsid.trans ht.same.hiAsid, h2.virt.trans ht.same.virt,
      fun p => (h2.asid p).trans (ht.same.asid p), fun p => (h2.pfNum p).trans (ht.same.pfNum p),
      fun p => (h2.fifo p).trans (ht.same.fifo p), fun p m => (h2.pte p m).trans (ht.same.pte p m)⟩,
    h3.pool.trans ht.pool, h3.swapFile.trans ht.swapFile, fun j hj => ?_, fun f o hfo => ?_⟩
  · simp [userStore, h1, hframe]
  · rw [hmem]
    by_cases e : j = i
    · rw [e, if_pos ⟨rfl, rfl⟩]
    · have hne : ¬ (v + j) % pageSize = (v + i) % pageSize := by
        simp only [pageSize] at hi ⊢
        omega
      rw [if_neg fun h => hne h.2, ht.bytes j (by omega)]
  · rw [hmem, if_neg (hfo i (Nat.lt_succ_self i)),
      ht.other f o fun j hj => hfo j (Nat.lt_succ_of_lt hj)]

theorem loadPageFromDisk_spec (hi : VmInv env s) (hr : rangeResident s v) (n block : ℕ) :
    ∃ t, loadPageFromDisk (vmAccess env (n + 2)) s v block = some t ∧
      CopiedIn env s t v block (if block = 0 then 0 else pageSize) := by
  have h0 : CopiedIn env s s v block 0 :=
    ⟨hi, .refl s, rfl, rfl, fun i hi => absurd hi (Nat.not_lt_zero i), fun _ _ _ => rfl⟩
  by_cases hb : block = 0
  · exact ⟨s, by rw [loadPageFromDisk, if_pos hb], by rwa [if_pos hb]⟩
  · rw [loadPageFromDisk, if_neg hb, if_neg hb]
    exact foldlM_range_spec (P := fun i t => CopiedIn env s t v block i) pageSize
      (fun i hi t ht => copyIn_step hr n block hi ht) h0

end Copy

def frameLo (pfn : ℕ) : EntryLo := ⟨pfn, 3, true, true, true⟩

theorem ofValue_frame {pfn : ℕ} (h : pfn < machinePageNum) :
    EntryLo.ofValue ((((pfn <<< pageShift) >>> pageShift) <<< 6) ||| 0x1f) = frameLo pfn := by
  have h1 : (pfn <<< pageShift) >>> pageShift = pfn := by
    rw [Nat.shiftLeft_shiftRight]
  have h2 : pfn <<< 6 ||| 0x1f = 2 ^ 6 * pfn + 0x1f := by
    rw [Nat.two_pow_add_eq_or_of_lt (by decide), Nat.shiftLeft_eq, mul_comm]
  have hm : machinePageNum = 131072 := rfl
  rw [h1, h2]
  simp only [EntryLo.ofValue, frameLo, EntryLo.mk.injEq, Nat.shiftRight_eq_div_pow,
    Nat.testBit_eq_decide_div_mod_eq, decide_eq_true_eq]
  omega

section Pte

variable {env : VmEnv} {s : VmSys} {v w : ℕ} {g : Pte → Pte}

theorem setCurPte_mm (s : VmSys) (v : ℕ) (g : Pte → Pte) (p : ℕ) :
    ((setCurPte s v g).mms p).asid = (s.mms p).asid ∧
      ((setCurPte s v g).mms p).pfNum = (s.mms p).pfNum ∧
      ((setCurPte s v g).mms p).fifo = (s.mms p).fifo := by
  by_cases e : p = s.mmCurrent
  · subst e
    simp [setCurPte, VmSys.setCur, VmSys.cur]
  · simp [setCurPte, VmSys.setCur, e]

theorem setCurPte_pte (s : VmSys) (v : ℕ) (g : Pte → Pte) (p n : ℕ) :
    pteAt ((setCurPte s v g).mms p).pgd n =
      if p = s.mmCurrent ∧ n = vpn v then g (s.curPte v) else pteAt (s.mms p).pgd n := by
  by_cases e : p = s.mmCurrent
  · subst e
    simp only [setCurPte, VmSys.setCur, Function.update_self, pteAt_setPte, true_and]
    rfl
  · simp [setCurPte, VmSys.setCur, e]

theorem TlbInv.set_invalid (hi : TlbInv env s) (hv : (s.curPte v).tlbEntry.v = false) :
    TlbInv env (setCurPte s v g) where
  hi := by
    rw [VmSys.cur, (setCurPte_mm s v g _).1]
    exact hi.hi
  coherent i hlt p hp ha w hw h2 hval := by
    rw [(setCurPte_mm s v g p).1] at ha
    have hc := hi.coherent i hlt p hp ha w hw h2 hval
    rw [VmSys.pte, setCurPte_pte, if_neg]
    · exact hc
    · rintro ⟨rfl, hn⟩
      have hsame : s.pte s.mmCurrent w = s.curPte v := by rw [VmSys.curPte, VmSys.pte, hn]; rfl
      rw [hsame] at hc
      have hval' : ((s.tlb i).half w).v = true := hval
      rw [hc, hv] at hval'
      exact absurd hval' (by decide)
  foreign := hi.foreign
  unique := hi.unique

theorem setHalf_tag (e : TlbEntry) (v : ℕ) (lo : EntryLo) :
    (e.setHalf v lo).vpn2 = e.vpn2 ∧ (e.setHalf v lo).asid = e.asid := by
  unfold TlbEntry.setHalf
  split <;> exact ⟨rfl, rfl⟩

theorem setHalf_half (e : TlbEntry) (v w : ℕ) (lo : EntryLo) :
    (e.setHalf v lo).half w = if addrBindToLo1 w = addrBindToLo1 v then lo else e.half w := by
  unfold TlbEntry.setHalf TlbEntry.half
  cases addrBindToLo1 v <;> cases addrBindToLo1 w <;> rfl

/-- What the TLB owes once the entry of the page of `v` has been made invalid in the page table. -/
structure TlbStale (env : VmEnv) (s : VmSys) (v : ℕ) : Prop where
  hi : s.hiAsid = s.cur.asid % 256
  coherent : ∀ i < tlbNum, ∀ p ∈ env.procs, (s.tlb i).asid = (s.mms p).asid % 256 →
    ∀ w < userTop, (s.tlb i).vpn2 = vpn2 w → ((s.tlb i).half w).v = true →
      ¬ (p = s.mmCurrent ∧ vpn w = vpn v) → (s.tlb i).half w = (s.pte p w).tlbEntry
  foreign : ∀ i < tlbNum, (s.tlb i).isGlobal = true → (s.tlb i).asid = s.hiAsid
  unique : ∀ i < tlbNum, ∀ j < tlbNum, (s.tlb i).vpn2 = (s.tlb j).vpn2 →
    (s.tlb i).asid = (s.tlb j).asid → i = j
  invalid : (s.curPte v).tlbEntry.v = false

theorem TlbInv.stale (hi : TlbInv env s) (hg : (g (s.curPte v)).tlbEntry.v = false) :
    TlbStale env (setCurPte s v g) v where
  hi := by
    rw [VmSys.cur, (setCurPte_mm s v g _).1]
    exact hi.hi
  coherent i hlt p hp ha w hw h2 hval hne := by
    rw [(setCurPte_mm s v g p).1] at ha
    rw [VmSys.pte, setCurPte_pte, if_neg (by exact hne)]
    exact hi.coherent i hlt p hp ha w hw h2 hval
  foreign := hi.foreign
  unique := hi.unique
  invalid := by
    have h := setCurPte_pte s v g s.mmCurrent (vpn v)
    rw [if_pos ⟨rfl, rfl⟩] at h
    rw [← hg, ← h]
    rfl

theorem tlbReset_spec (hf : ProcInv env s) (hs : TlbStale env s v) :
    TlbInv env (tlbReset s s.mmCurrent v) ∧ SameMms s (tlbReset s s.mmCurrent v) ∧
      SameStore s (tlbReset s s.mmCurrent v) := by
  have hits : ∀ i < tlbNum, (s.tlb i).hits (vpn2 v) s.hiAsid = true ↔
      (s.tlb i).vpn2 = vpn2 v ∧ (s.tlb i).asid = s.hiAsid := by
    intro i hlt
    simp only [TlbEntry.hits, Bool.and_eq_true, Bool.or_eq_true, beq_iff_eq]
    refine and_congr_right fun _ => ⟨?_, .inl⟩
    rintro (h | h)
    exacts [h, hs.foreign i hlt h]
  have hsame : ({ s with hiAsid := (s.mms s.mmCurrent).asid % 256 } : VmSys) = s := by
    rw [← VmSys.cur, ← hs.hi]
  unfold tlbReset
  simp only [hsame]
  rw [← VmSys.cur, ← hs.hi]
  cases hp : tlbp s (vpn2 v) s.hiAsid with
  | none =>
    refine ⟨⟨hs.hi, fun i hlt p hpp ha w hw h2 hval => ?_, hs.foreign, hs.unique⟩, .refl s,
      ⟨rfl, rfl, rfl⟩⟩
    refine hs.coherent i hlt p hpp ha w hw h2 hval ?_
    rintro ⟨rfl, hn⟩
    have hv2 : vpn2 w = vpn2 v := by rw [vpn2_eq, vpn2_eq, hn]
    exact TlbInv.tlbp_none hp hlt ((hits i hlt).mpr ⟨h2.trans hv2, ha.trans hs.hi.symm⟩)
  | some i =>
    obtain ⟨hlt, hh⟩ := TlbInv.tlbp_some hp
    obtain ⟨hi2, hia⟩ := (hits i hlt).mp hh
    have hsame' : ({ s with hiAsid := (s.tlb i).asid } : VmSys) = s := by rw [hia]
    simp only [hsame']
    have ht := touchPte_same s s.mmCurrent v
    have hpte : (touchPte s s.mmCurrent v).entry s.mmCurrent
        (ptePtr (touchPte s s.mmCurrent v) s.mmCurrent v) = s.curPte v := by
      rw [entry_ptePtr, VmSys.pte, ht.pte]
      rfl
    rw [hpte]
    set e := (s.tlb i).setHalf v (s.curPte v).tlbEntry
    have htag : e.vpn2 = (s.tlb i).vpn2 ∧ e.asid = (s.tlb i).asid := setHalf_tag _ _ _
    have hself : (tlbw (touchPte s s.mmCurrent v) i e).tlb i = e := Function.update_self ..
    have hother : ∀ j, j ≠ i → (tlbw (touchPte s s.mmCurrent v) i e).tlb j = s.tlb j :=
      fun j hj => Function.update_of_ne hj ..
    have hall : ∀ j, ((tlbw (touchPte s s.mmCurrent v) i e).tlb j).vpn2 = (s.tlb j).vpn2 ∧
        ((tlbw (touchPte s s.mmCurrent v) i e).tlb j).asid = (s.tlb j).asid := by
      intro j
      by_cases hj : j = i
      · rw [hj, hself]
        exact htag
      · rw [hother j hj]
        exact ⟨rfl, rfl⟩
    refine ⟨⟨?_, fun j hj p hpp ha w hw h2 hval => ?_, fun j hj hg => ?_, fun j hj k hk h1 h2 => ?_⟩,
      ⟨ht.cur, ht.hiAsid, ht.virt, ht.asid, ht.pfNum, ht.fifo, ht.pte⟩, ⟨rfl, rfl, rfl⟩⟩
    · exact hs.hi.trans (congrArg (· % 256) (ht.asid _).symm)
    · rw [(hall j).1] at h2
      rw [(hall j).2, show ((tlbw (touchPte s s.mmCurrent v) i e).mms p).asid = (s.mms p).asid from
        ht.asid p] at ha
      have hgoal : (tlbw (touchPte s s.mmCurrent v) i e).pte p w = s.pte p w := ht.pte p _
      rw [hgoal]
      by_cases hji : j = i
      · subst hji
        rw [hself, setHalf_half] at hval ⊢
        have hcur : p = s.mmCurrent := hf.asid p hpp _ hf.cur (ha.symm.trans (hia.trans hs.hi))
        by_cases hb : addrBindToLo1 w = addrBindToLo1 v
        · rw [if_pos hb, hs.invalid] at hval
          exact absurd hval (by decide)
        · rw [if_neg hb] at hval ⊢
          refine hs.coherent j hj p hpp ha w hw h2 hval fun h => hb ?_
          rw [Bool.eq_iff_iff, addrBindToLo1_iff, addrBindToLo1_iff, h.2]
      · rw [hother j hji] at hval ⊢
        refine hs.coherent j hj p hpp ha w hw h2 hval ?_
        rintro ⟨rfl, hn⟩
        have hv2 : vpn2 w = vpn2 v := by rw [vpn2_eq, vpn2_eq, hn]
        exact hji (hs.unique j hj i hlt ((h2.trans hv2).trans hi2.symm)
          ((ha.trans hs.hi.symm).trans hia.symm))
    · rw [(hall j).2]
      by_cases hji : j = i
      · rw [hji, hia]
        exact ht.hiAsid.symm
      · rw [hother j hji] at hg
        exact (hs.foreign j hj hg).trans ht.hiAsid.symm
    · rw [(hall j).1, (hall k).1] at h1
      rw [(hall j).2, (hall k).2] at h2
      exact hs.unique j hj k hk h1 h2

def invalidated (pte : Pte) : Pte := { pte with tlbEntry := { pte.tlbEntry with v := false } }

theorem queuePage_mm (s : VmSys) (f v : ℕ) (fifo : List ℕ) (pfNum p : ℕ) :
    ((queuePage s f v fifo pfNum).mms p).asid = (s.mms p).asid ∧
      ((queuePage s f v fifo pfNum).mms p).pgd = (s.mms p).pgd ∧
      ((queuePage s f v fifo pfNum).mms p).fifo =
        if p = s.mmCurrent then fifo else (s.mms p).fifo := by
  by_cases e : p = s.mmCurrent
  · subst e
    simp [queuePage, VmSys.setCur, VmSys.cur]
  · simp [queuePage, VmSys.setCur, e]

theorem TlbInv.queue (hi : TlbInv env s) (f v : ℕ) (fifo : List ℕ) (pfNum : ℕ) :
    TlbInv env (queuePage s f v fifo pfNum) := by
  have hmm := queuePage_mm s f v fifo pfNum
  refine ⟨?_, fun i hlt p hp ha w hw h2 hval => ?_, hi.foreign, hi.unique⟩
  · rw [VmSys.cur, (hmm _).1]
    exact hi.hi
  · rw [(hmm p).1] at ha
    rw [VmSys.pte, (hmm p).2.1]
    exact hi.coherent i hlt p hp ha w hw h2 hval

structure Released (env : VmEnv) (s t : VmSys) (f out v : ℕ) : Prop where
  tlb : TlbInv env t
  store : SameStore s t
  cur : t.mmCurrent = s.mmCurrent
  asid : ∀ p, (t.mms p).asid = (s.mms p).asid
  virt : t.virt = Function.update s.virt f v
  fifo : ∀ p, (t.mms p).fifo =
    if p = s.mmCurrent then s.cur.fifo.erase f ++ [f] else (s.mms p).fifo
  pte : ∀ p n, pteAt (t.mms p).pgd n =
    if p = s.mmCurrent ∧ n = vpn out then invalidated (s.curPte out) else pteAt (s.mms p).pgd n

theorem releasePage_spec (hf : ProcInv env s) (hi : TlbInv env s) (f out v : ℕ) :
    Released env s (releasePage s f out v) f out v := by
  have hmm := setCurPte_mm s out invalidated
  have hp : ProcInv env (setCurPte s out invalidated) :=
    ⟨hf.cur, by simpa only [(hmm _).1] using hf.asid⟩
  obtain ⟨h1, h2, h3⟩ := tlbReset_spec hp (hi.stale (g := invalidated) (v := out) rfl)
  set u := tlbReset (setCurPte s out invalidated) (setCurPte s out invalidated).mmCurrent out
  have hcur : u.mmCurrent = s.mmCurrent := h2.cur
  have hq := queuePage_mm u f v (u.cur.fifo.erase f ++ [f]) u.cur.pfNum
  have hfifo : u.cur.fifo = s.cur.fifo := by
    rw [VmSys.cur, hcur, h2.fifo, (hmm _).2.2]
    rfl
  refine ⟨h1.queue _ _ _ _, ⟨h3.mem, h3.pool, h3.swapFile⟩, hcur, fun p => ?_, ?_, fun p => ?_,
    fun p n => ?_⟩
  · exact (hq p).1.trans ((h2.asid p).trans (hmm p).1)
  · exact congrArg (Function.update · f v) h2.virt
  · refine (hq p).2.2.trans ?_
    rw [hcur, hfifo, h2.fifo, (hmm p).2.2]
  · refine (congrArg (pteAt · n) (hq p).2.1).trans ?_
    rw [h2.pte, setCurPte_pte]

structure Swapped (env : VmEnv) (s t : VmSys) (f v block : ℕ) : Prop where
  tlb : TlbInv env t
  cur : t.mmCurrent = s.mmCurrent
  asid : ∀ p, (t.mms p).asid = (s.mms p).asid
  virt : t.virt = Function.update s.virt f v
  fifo : ∀ p, (t.mms p).fifo =
    if p = s.mmCurrent then s.cur.fifo.erase f ++ [f] else (s.mms p).fifo
  pte : ∀ p n, pteAt (t.mms p).pgd n = if p = s.mmCurrent ∧ n = vpn (s.virt f) then
    ⟨{ (s.curPte (s.virt f)).tlbEntry with v := false }, block⟩ else pteAt (s.mms p).pgd n
  pool : (if (s.curPte (s.virt f)).info = 0 then allocSwapBlock env s.pool
    else (s.pool, (s.curPte (s.virt f)).info)) = (t.pool, block)
  out : ∀ i < pageSize, t.swapFile block i = s.byteAt (s.virt f + i)
  kept : ∀ b, b ≠ block → t.swapFile b = s.swapFile b
  loaded : (s.curPte v).info ≠ 0 → ∀ i < pageSize,
    t.mem (s.frameAt (s.virt f + i)) ((s.virt f + i) % pageSize) = t.swapFile (s.curPte v).info i
  mem : ∀ g o, (∀ i < pageSize,
    ¬ (g = s.frameAt (s.virt f + i) ∧ o = (s.virt f + i) % pageSize)) → t.mem g o = s.mem g o

theorem setCurPte_lo (hg : ∀ pte, (g pte).tlbEntry = pte.tlbEntry) (s : VmSys) (v : ℕ) :
    SameLo s (setCurPte s v g) := by
  have hmm := setCurPte_mm s v g
  refine ⟨rfl, rfl, rfl, fun p => (hmm p).1, fun p => (hmm p).2.2, fun p n => ?_⟩
  rw [setCurPte_pte]
  split_ifs with h
  · obtain ⟨rfl, rfl⟩ := h
    exact hg _
  · rfl

/-- The page at `out` has been written to `block`, and `block` to its entry. -/
structure PageOut (env : VmEnv) (s t : VmSys) (out block : ℕ) : Prop where
  inv : VmInv env t
  cur : t.mmCurrent = s.mmCurrent
  asid : ∀ p, (t.mms p).asid = (s.mms p).asid
  virt : t.virt = s.virt
  fifo : ∀ p, (t.mms p).fifo = (s.mms p).fifo
  pte : ∀ p n, pteAt (t.mms p).pgd n = if p = s.mmCurrent ∧ n = vpn out then
    ⟨(s.curPte out).tlbEntry, block⟩ else pteAt (s.mms p).pgd n
  pool : (if (s.curPte out).info = 0 then allocSwapBlock env s.pool
    else (s.pool, (s.curPte out).info)) = (t.pool, block)
  bytes : ∀ i < pageSize, t.swapFile block i = s.byteAt (out + i)
  kept : ∀ b, b ≠ block → t.swapFile b = s.swapFile b
  mem : t.mem = s.mem

theorem PageOut.tlbEntry {t : VmSys} {out block : ℕ} (h : PageOut env s t out block) (x : ℕ) :
    (t.curPte x).tlbEntry = (s.curPte x).tlbEntry := by
  rw [VmSys.curPte, VmSys.pte, h.cur, h.pte]
  split_ifs with he
  · rw [curPte_of_vpn he.2]
  · rfl

theorem PageOut.frameAt {t : VmSys} {out block : ℕ} (h : PageOut env s t out block) (x : ℕ) :
    t.frameAt x = s.frameAt x := by
  rw [VmSys.frameAt, VmSys.frameAt, h.tlbEntry]

theorem PageOut.resident {t : VmSys} {out block : ℕ} (h : PageOut env s t out block)
    (hr : rangeResident s v) : rangeResident t v := by
  intro i hi
  rw [h.tlbEntry]
  exact hr i hi

theorem PageOut.touch {t : VmSys} {out block : ℕ} (h : PageOut env s t out block) (v : ℕ) :
    PageOut env s (touchPte t t.mmCurrent v) out block := by
  have ht := touchPte_same t t.mmCurrent v
  exact ⟨ht.lo.vmInv rfl h.inv, ht.cur.trans h.cur, fun p => (ht.asid p).trans (h.asid p),
    ht.virt.trans h.virt, fun p => (ht.fifo p).trans (h.fifo p),
    fun p m => (ht.pte p m).trans (h.pte p m), h.pool, h.bytes, h.kept, h.mem⟩

theorem writeOut_spec (hi : VmInv env s) {out : ℕ} (hr : rangeResident s out) (n : ℕ) :
    ∃ t block, writePageToDisk env (vmAccess env (n + 2)) (touchPte s s.mmCurrent out) out
        (s.curPte out).info = some (t, block) ∧
      PageOut env s (setCurPte t out fun pte => { pte with info := block }) out block := by
  have g1 := touchPte_same s s.mmCurrent out
  obtain ⟨t, block, pool, w1, w2, w3⟩ := writePageToDisk_spec (g1.lo.vmInv rfl hi)
    (g1.rangeResident hr) n (s.curPte out).info
  have hbyte : ∀ x, ({ touchPte s s.mmCurrent out with pool := pool } : VmSys).byteAt x =
      s.byteAt x := by
    intro x
    have := g1.curPte x
    exact congrArg (fun pte : Pte => s.mem pte.tlbEntry.pfn (x % pageSize)) this
  have g2 : SameMms s t := g1.trans ⟨w3.same.cur, w3.same.hiAsid, w3.same.virt, w3.same.asid,
    w3.same.pfNum, w3.same.fifo, w3.same.pte⟩
  have l3 : SameLo t (setCurPte t out fun pte => { pte with info := block }) :=
    setCurPte_lo (g := fun pte => { pte with info := block }) (fun _ => rfl) t _
  refine ⟨t, block, w1, l3.vmInv rfl w3.inv, l3.cur.trans g2.cur,
    fun p => (l3.asid p).trans (g2.asid p), l3.virt.trans g2.virt,
    fun p => (l3.fifo p).trans (g2.fifo p), fun p m => ?_, ?_, fun i hi => ?_, fun b hb => ?_, w3.mem⟩
  · rw [setCurPte_pte, g2.cur, g2.curPte, g2.pte]
  · exact w2.trans (congrArg (·, block) w3.pool.symm)
  · exact (w3.bytes i hi).trans (hbyte _)
  · exact w3.other b hb

theorem swapOnePage_spec (hi : VmInv env s) {f : ℕ} (hhead : s.cur.fifo.head? = some f)
    (hr : rangeResident s (s.virt f)) (hval : (s.curPte v).tlbEntry.v = false) (n : ℕ) :
    ∃ t block, swapOnePage env (vmAccess env (n + 2)) s v = some (t, f <<< pageShift) ∧
      Swapped env s t f v block := by
  have hmem : f ∈ s.cur.fifo := List.mem_of_head? hhead
  obtain ⟨-, hout, hpfn⟩ := hi.frame.owned s.mmCurrent hi.frame.cur f hmem
  have hne : vpn v ≠ vpn (s.virt f) := by
    intro he
    have hsame : s.curPte v = s.pte s.mmCurrent (s.virt f) := by
      rw [VmSys.curPte, VmSys.pte, he]
      rfl
    rw [hsame, hout] at hval
    exact absurd hval (by decide)
  have hpte : (touchPte s s.mmCurrent (s.virt f)).entry s.mmCurrent
      (ptePtr (touchPte s s.mmCurrent (s.virt f)) s.mmCurrent (s.virt f)) = s.curPte (s.virt f) := by
    rw [entry_ptePtr, VmSys.pte, (touchPte_same s s.mmCurrent (s.virt f)).pte]
    rfl
  obtain ⟨s2, block, w1, w2⟩ := writeOut_spec hi hr n
  set s3 := setCurPte s2 (s.virt f) fun pte => { pte with info := block } with hs3
  have h4 := w2.touch v
  have hinfo : ((touchPte s3 s3.mmCurrent v).entry s3.mmCurrent
      (ptePtr (touchPte s3 s3.mmCurrent v) s3.mmCurrent v)).info = (s.curPte v).info := by
    rw [entry_ptePtr, VmSys.pte, h4.pte, if_neg fun h => hne h.2, w2.cur]
    rfl
  -- the wanted page is read back through the mapping of the victim
  obtain ⟨s5, r1, r2⟩ := loadPageFromDisk_spec h4.inv (h4.resident hr) n (s.curPte v).info
  have hrel := releasePage_spec r2.inv.frame.toProcInv r2.inv.tlb f (s.virt f) v
  have hcur5 : s5.mmCurrent = s.mmCurrent := r2.same.cur.trans h4.cur
  have hfifo5 : ∀ p, (s5.mms p).fifo = (s.mms p).fifo := fun p =>
    (r2.same.fifo p).trans (h4.fifo p)
  have hpte5 : ∀ p m, pteAt (s5.mms p).pgd m = if p = s.mmCurrent ∧ m = vpn (s.virt f) then
      ⟨(s.curPte (s.virt f)).tlbEntry, block⟩ else pteAt (s.mms p).pgd m := fun p m =>
    (r2.same.pte p m).trans (h4.pte p m)
  refine ⟨releasePage s5 f (s.virt f) v, block, ?_, hrel.tlb, hrel.cur.trans hcur5, fun p => ?_, ?_,
    fun p => ?_, fun p m => ?_, ?_, fun i hi => ?_, fun b hb => ?_, fun h0 i hi => ?_,
    fun g o hgo => ?_⟩
  · unfold swapOnePage
    rw [hhead]
    simp only [Option.bind_eq_bind, Option.bind_some, touchPte_cur, hpte, w1]
    rw [← hs3, hinfo, r1, Option.bind_some, show (s.curPte (s.virt f)).tlbEntry.pfn = f from hpfn]
    rfl
  · exact (hrel.asid p).trans ((r2.same.asid p).trans (h4.asid p))
  · rw [hrel.virt, r2.same.virt, h4.virt]
  · rw [hrel.fifo, hcur5, hfifo5, VmSys.cur, VmSys.cur, hcur5, hfifo5]
  · rw [hrel.pte, hcur5, hpte5]
    by_cases h : p = s.mmCurrent ∧ m = vpn (s.virt f)
    · rw [if_pos h, if_pos h, VmSys.curPte, VmSys.pte, hcur5, hpte5, if_pos ⟨rfl, rfl⟩]
      rfl
    · rw [if_neg h, if_neg h, if_neg h]
  · rw [hrel.store.pool, r2.pool]
    exact h4.pool
  · rw [hrel.store.swapFile, r2.swapFile]
    exact h4.bytes i hi
  · rw [hrel.store.swapFile, r2.swapFile]
    exact h4.kept b hb
  · have h1 := r2.bytes i (by rwa [if_neg h0])
    rw [h4.frameAt] at h1
    rw [hrel.store.mem, hrel.store.swapFile, h1, r2.swapFile]
  · rw [hrel.store.mem, r2.other g o]
    · exact congrFun (congrFun h4.mem g) o
    · intro i hi
      rw [h4.frameAt]
      refine hgo i ?_
      split_ifs at hi with h0
      · omega
      · exact hi

theorem OwnsFrames.assign {t : VmSys} (hi : OwnsFrames env s) (hv : v < userTop)
    (hinv : (s.curPte v).tlbEntry.v = false) {f : ℕ} (hf : f < machinePageNum) {l : List ℕ}
    (hl : l.Sublist s.cur.fifo) (hfl : f ∉ l)
    (hfresh : ∀ p ∈ env.procs, p ≠ s.mmCurrent → f ∉ (s.mms p).fifo)
    (hcur : t.mmCurrent = s.mmCurrent)
    (hvirt : t.virt = Function.update s.virt f v)
    (hfifo : ∀ p, (t.mms p).fifo = if p = s.mmCurrent then l ++ [f] else (s.mms p).fifo)
    (hnew : (pteAt (t.mms s.mmCurrent).pgd (vpn v)).tlbEntry = frameLo f)
    (hold : ∀ p n, ¬ (p = s.mmCurrent ∧ n = vpn v) → (p = s.mmCurrent → ∃ g ∈ l, n = vpn (s.virt g)) →
      (pteAt (t.mms p).pgd n).tlbEntry = (pteAt (s.mms p).pgd n).tlbEntry)
    (hgone : ∀ w < userTop, vpn w ≠ vpn v → (t.pte s.mmCurrent w).tlbEntry.v = true →
      (t.pte s.mmCurrent w).tlbEntry = (s.curPte w).tlbEntry ∧
        (s.curPte w).tlbEntry.pfn ∈ l) : OwnsFrames env t := by
  have hsub : ∀ g ∈ l, g ∈ (s.mms s.mmCurrent).fifo := fun g hg => hl.subset hg
  have hmem : ∀ p g, g ∈ (t.mms p).fifo ↔
      (p = s.mmCurrent ∧ (g ∈ l ∨ g = f)) ∨ (p ≠ s.mmCurrent ∧ g ∈ (s.mms p).fifo) := by
    intro p g
    rw [hfifo]
    by_cases e : p = s.mmCurrent
    · simp [e]
    · simp [e]
  have hvg : ∀ g, g ≠ f → t.virt g = s.virt g := fun g hg => by rw [hvirt, Function.update_of_ne hg]
  have hvf : t.virt f = v := by rw [hvirt, Function.update_self]
  have hpages : ∀ g ∈ l, vpn (s.virt g) ≠ vpn v := by
    intro g hg he
    have ho := (hi.owned s.mmCurrent hi.cur g (hsub g hg)).2.1
    rw [VmSys.pte, he] at ho
    exact absurd (ho.symm.trans hinv) (by decide)
  refine ⟨hcur ▸ hi.cur, fun p hp => ?_,
    fun p hp q hq g hg hg' => ?_, fun p hp g hg => ?_, fun p hp g hg => ?_, fun p hp w hw hval => ?_⟩
  · rw [hfifo]
    split_ifs with e
    · rw [List.nodup_append]
      refine ⟨hl.nodup (hi.nodup _ hi.cur), List.nodup_singleton f, fun a ha b hb => ?_⟩
      rw [List.mem_singleton.mp hb]
      exact fun e => hfl (e ▸ ha)
    · exact hi.nodup p hp
  · rw [hmem] at hg hg'
    rcases hg with ⟨rfl, hg⟩ | ⟨hpc, hg⟩ <;> rcases hg' with ⟨hqc, hg'⟩ | ⟨hqc, hg'⟩
    · exact hqc.symm
    · rcases hg with hg | rfl
      · exact absurd (hi.disjoint _ hi.cur q hq g (hsub g hg) hg').symm hqc
      · exact absurd hg' (hfresh q hq hqc)
    · subst hqc
      rcases hg' with hg' | rfl
      · exact absurd (hi.disjoint p hp _ hi.cur g hg (hsub g hg')) hpc
      · exact absurd hg (hfresh p hp hpc)
    · exact hi.disjoint p hp q hq g hg hg'
  · rcases (hmem p g).mp hg with ⟨rfl, hg | rfl⟩ | ⟨-, hg⟩
    exacts [hi.small _ hp g (hsub g hg), hf, hi.small p hp g hg]
  · rcases (hmem p g).mp hg with ⟨rfl, hg | rfl⟩ | ⟨hpc, hg⟩
    · have hgf : g ≠ f := fun e => hfl (e ▸ hg)
      rw [hvg g hgf, VmSys.pte, hold _ _ (fun h => hpages g hg h.2) fun _ => ⟨g, hg, rfl⟩]
      exact hi.owned _ hp g (hsub g hg)
    · rw [hvf, VmSys.pte, hnew]
      exact ⟨hv, rfl, rfl⟩
    · have hgf : g ≠ f := fun e => hfresh p hp hpc (e ▸ hg)
      rw [hvg g hgf, VmSys.pte, hold _ _ (fun h => hpc h.1) fun h => absurd h hpc]
      exact hi.owned p hp g hg
  · rw [hmem]
    by_cases e : p = s.mmCurrent
    · subst e
      by_cases en : vpn w = vpn v
      · rw [VmSys.pte, en, hnew]
        exact ⟨.inl ⟨rfl, .inr rfl⟩, congrArg vpn hvf⟩
      · obtain ⟨h1, h2⟩ := hgone w hw en hval
        have hgf : (s.curPte w).tlbEntry.pfn ≠ f := fun e => hfl (e ▸ h2)
        rw [h1] at hval ⊢
        rw [hvg _ hgf]
        exact ⟨.inl ⟨rfl, .inl h2⟩, (hi.valid _ hp w hw hval).2⟩
    · have h1 := hold p (vpn w) (fun h => e h.1) fun h => absurd h e
      rw [VmSys.pte, h1] at hval ⊢
      obtain ⟨h2, h3⟩ := hi.valid p hp w hw hval
      have hgf : (pteAt (s.mms p).pgd (vpn w)).tlbEntry.pfn ≠ f :=
        fun he => hfresh p hp e (he ▸ h2)
      rw [hvg _ hgf]
      exact ⟨.inr ⟨e, h2⟩, h3⟩

theorem FrameInv.assign {t : VmSys} (hi : FrameInv env s) (hv : v < userTop)
    (hinv : (s.curPte v).tlbEntry.v = false) {f : ℕ} (hf : f < machinePageNum) {l : List ℕ}
    (hl : l.Sublist s.cur.fifo) (hfl : f ∉ l)
    (hfresh : ∀ p ∈ env.procs, p ≠ s.mmCurrent → f ∉ (s.mms p).fifo)
    (hcur : t.mmCurrent = s.mmCurrent) (hasid : ∀ p, (t.mms p).asid = (s.mms p).asid)
    (hvirt : t.virt = Function.update s.virt f v)
    (hfifo : ∀ p, (t.mms p).fifo = if p = s.mmCurrent then l ++ [f] else (s.mms p).fifo)
    (hnew : (pteAt (t.mms s.mmCurrent).pgd (vpn v)).tlbEntry = frameLo f)
    (hold : ∀ p n, ¬ (p = s.mmCurrent ∧ n = vpn v) → (p = s.mmCurrent → ∃ g ∈ l, n = vpn (s.virt g)) →
      (pteAt (t.mms p).pgd n).tlbEntry = (pteAt (s.mms p).pgd n).tlbEntry)
    (hgone : ∀ w < userTop, vpn w ≠ vpn v → (t.pte s.mmCurrent w).tlbEntry.v = true →
      (t.pte s.mmCurrent w).tlbEntry = (s.curPte w).tlbEntry ∧
        (s.curPte w).tlbEntry.pfn ∈ l) : FrameInv env t :=
  { hi.toOwnsFrames.assign hv hinv hf hl hfl hfresh hcur hvirt hfifo hnew hold hgone with
    asid := by simpa only [hasid] using hi.asid }

end Pte

end OurOS
