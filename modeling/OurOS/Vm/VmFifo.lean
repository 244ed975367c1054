import OurOS.Vm.VmRun

set_option linter.style.nameCheck false

namespace OurOS

/-- As `SameMms`, but the EntryHi register may differ: what the accesses of `swap_one_page` keep
whatever the TLB holds. -/
structure SameTables (s t : VmSys) : Prop where
  cur : t.mmCurrent = s.mmCurrent
  virt : t.virt = s.virt
  pfNum : ∀ p, (t.mms p).pfNum = (s.mms p).pfNum
  fifo : ∀ p, (t.mms p).fifo = (s.mms p).fifo
  pte : ∀ p n, pteAt (t.mms p).pgd n = pteAt (s.mms p).pgd n

def rangeMapped (s : VmSys) (v : ℕ) : Prop :=
  ∀ i < pageSize, v + i < userTop → (s.curPte (v + i)).tlbEntry.v = true

section Tables

variable {env : VmEnv} {s t u : VmSys} {v f : ℕ}

theorem SameMms.tables (h : SameMms s t) : SameTables s t :=
  ⟨h.cur, h.virt, h.pfNum, h.fifo, h.pte⟩

namespace SameTables

theorem refl (s : VmSys) : SameTables s s := (SameMms.refl s).tables

theorem trans (h₁ : SameTables s t) (h₂ : SameTables t u) : SameTables s u where
  cur := h₂.cur.trans h₁.cur
  virt := h₂.virt.trans h₁.virt
  pfNum p := (h₂.pfNum p).trans (h₁.pfNum p)
  fifo p := (h₂.fifo p).trans (h₁.fifo p)
  pte p n := (h₂.pte p n).trans (h₁.pte p n)

theorem curPte (h : SameTables s t) (v : ℕ) : t.curPte v = s.curPte v := by
  rw [VmSys.curPte, VmSys.pte, h.cur, h.pte]
  rfl

theorem rangeMapped (h : SameTables s t) (hr : rangeMapped s v) : rangeMapped t v := by
  intro i hi hv
  rw [h.curPte]
  exact hr i hi hv

end SameTables

theorem tlbp_tlbw {i m a : ℕ} {e : TlbEntry}
    (hidx : tlbp s m a = some i ∨ tlbp s m a = none ∧ i < tlbNum) (he : e.hits m a = true) :
    tlbp (tlbw s i e) m a = some i := by
  have hself : (tlbw s i e).tlb i = e := Function.update_self ..
  have hother : ∀ j < i, (tlbw s i e).tlb j = s.tlb j := fun j hj =>
    Function.update_of_ne hj.ne ..
  have hfree : i < tlbNum ∧ ∀ j < i, (s.tlb j).hits m a = false := by
    rcases hidx with h | ⟨h, hlt⟩
    · obtain ⟨-, h1, h2⟩ := List.find?_range_eq_some.mp h
      exact ⟨List.mem_range.mp h1, fun j hj => by simpa using h2 j hj⟩
    · refine ⟨hlt, fun j hj => ?_⟩
      have := TlbInv.tlbp_none h (hj.trans hlt)
      simpa using this
  rw [tlbp, List.find?_range_eq_some]
  refine ⟨by rw [hself, he], List.mem_range.mpr hfree.1, fun j hj => ?_⟩
  rw [hother j hj, hfree.2 j hj]
  rfl

theorem access_loaded (hval : (s.curPte v).tlbEntry.v = true) (hv : v < userTop)
    {index : Option ℕ} (hidx : tlbp s (vpn2 v) s.hiAsid = index)
    (access : VmSys → ℕ → Option (VmSys × ℕ)) (n : ℕ) :
    ∃ t pfn, (__tlbRefill env access s v index).bind (vmAccess env (n + 1) · v) = some (t, pfn) ∧
      SameTables s t := by
  obtain ⟨t, i, h1, h2, -, htlb, hi⟩ := @refill_valid env s v access hval index
  have hpair : (pairEntry s v).hits (vpn2 v) s.hiAsid = true := by
    simp [TlbEntry.hits, pairEntry]
  have hfind : tlbp (tlbw t i (pairEntry s v)) (vpn2 v) s.hiAsid = some i := by
    refine tlbp_tlbw ?_ hpair
    rw [tlbp, htlb]
    rcases hi with rfl | ⟨rfl, hlt⟩
    exacts [.inl hidx, .inr ⟨hidx, hlt⟩]
  have hlo : ((tlbw t i (pairEntry s v)).tlb i).half v = (s.curPte v).tlbEntry := by
    rw [show (tlbw t i (pairEntry s v)).tlb i = pairEntry s v from Function.update_self ..]
    exact pairEntry_half s rfl
  refine ⟨tlbw t i (pairEntry s v), (s.curPte v).tlbEntry.pfn, ?_, h2.tables.trans
    ⟨rfl, rfl, fun _ => rfl, fun _ => rfl, fun _ _ => rfl⟩⟩
  rw [h1, Option.bind_some, vmAccess, if_neg (Nat.not_le_of_lt hv),
    show (tlbw t i (pairEntry s v)).hiAsid = s.hiAsid from h2.hiAsid, hfind]
  simp only [hlo, hval, if_true]

variable (env) in
theorem access_mapped (hval : v < userTop → (s.curPte v).tlbEntry.v = true) (n : ℕ) :
    ∃ t pfn, vmAccess env (n + 2) s v = some (t, pfn) ∧ SameTables s t := by
  by_cases hv : userTop ≤ v
  · exact ⟨s, _, by rw [vmAccess, if_pos hv], .refl s⟩
  · have hlt := Nat.lt_of_not_le hv
    cases hp : tlbp s (vpn2 v) s.hiAsid with
    | none =>
      rw [vmAccess, if_neg hv, hp]
      exact access_loaded (hval hlt) hlt hp _ n
    | some i =>
      rw [vmAccess, if_neg hv, hp]
      by_cases hb : ((s.tlb i).half v).v = true
      · exact ⟨s, ((s.tlb i).half v).pfn, by simp only [hb, if_true], .refl s⟩
      · simp only [hb]
        exact access_loaded (hval hlt) hlt hp _ n

variable (env) in
theorem writePageToDisk_run {access : VmSys → ℕ → Option (VmSys × ℕ)} {P : ℕ → VmSys → Prop}
    (blockNum : ℕ) (hstep : ∀ i < pageSize, ∀ t, P i t →
      ∃ u pfn, access t (v + i) = some (u, pfn) ∧ ∀ file, P (i + 1) { u with swapFile := file })
    (h0 : P 0 { s with
      pool := if blockNum = 0 then (allocSwapBlock env s.pool).1 else s.pool }) :
    ∃ t b, writePageToDisk env access s v blockNum = some (t, b) ∧ P pageSize t := by
  have hcopy : ∀ pool b, P 0 { s with pool := pool } → ∃ t, (List.range pageSize).foldlM
      (fun s i => (userLoad access s (v + i)).bind fun r => some (writeSwapByte r.1 b i r.2))
      { s with pool := pool } = some t ∧ P pageSize t := by
    intro pool b hp
    refine foldlM_range_spec pageSize (fun i hi t ht => ?_) hp
    obtain ⟨u, pfn, h1, h2⟩ := hstep i hi t ht
    exact ⟨writeSwapByte u b i (u.mem pfn ((v + i) % pageSize)), by simp [userLoad, h1], h2 _⟩
  by_cases hb : blockNum = 0
  · rw [if_pos hb] at h0
    obtain ⟨t, h1, h2⟩ := hcopy _ (allocSwapBlock env s.pool).2 h0
    refine ⟨t, (allocSwapBlock env s.pool).2, ?_, h2⟩
    rw [writePageToDisk, if_pos hb]
    exact Option.bind_eq_some_iff.mpr ⟨t, h1, rfl⟩
  · rw [if_neg hb] at h0
    obtain ⟨t, h1, h2⟩ := hcopy _ blockNum h0
    refine ⟨t, blockNum, ?_, h2⟩
    rw [writePageToDisk, if_neg hb]
    exact Option.bind_eq_some_iff.mpr ⟨t, h1, rfl⟩

variable (env) in
theorem writePageToDisk_tables (hr : rangeMapped s v) (n blockNum : ℕ) :
    ∃ t b, writePageToDisk env (vmAccess env (n + 2)) s v blockNum = some (t, b) ∧
      SameTables s t := by
  refine writePageToDisk_run env (P := fun _ t => SameTables s t) blockNum (fun i hi t ht => ?_)
    ⟨rfl, rfl, fun _ => rfl, fun _ => rfl, fun _ _ => rfl⟩
  obtain ⟨u, pfn, h1, h2⟩ := access_mapped env (ht.rangeMapped hr i hi) n
  exact ⟨u, pfn, h1, fun _ => ht.trans (h2.trans
    ⟨rfl, rfl, fun _ => rfl, fun _ => rfl, fun _ _ => rfl⟩)⟩

variable (env) in
theorem loadPageFromDisk_tables (hr : rangeMapped s v) (n block : ℕ) :
    ∃ t, loadPageFromDisk (vmAccess env (n + 2)) s v block = some t ∧ SameTables s t := by
  by_cases h0 : block = 0
  · exact ⟨s, by rw [loadPageFromDisk, if_pos h0], .refl s⟩
  · rw [loadPageFromDisk, if_neg h0]
    refine foldlM_range_spec (P := fun _ t => SameTables s t) pageSize (fun i hi t ht => ?_)
      (.refl s)
    obtain ⟨u, pfn, h1, h2⟩ := access_mapped env (ht.rangeMapped hr i hi) n
    refine ⟨writeFrame u pfn ((v + i) % pageSize) (t.swapFile block i), ?_, ht.trans (h2.trans
      ⟨rfl, rfl, fun _ => rfl, fun _ => rfl, fun _ _ => rfl⟩)⟩
    simp [userStore, h1]

theorem tlbReset_tables (s : VmSys) (p v : ℕ) : SameTables s (tlbReset s p v) := by
  unfold tlbReset
  dsimp only
  split
  · exact ⟨rfl, rfl, fun _ => rfl, fun _ => rfl, fun _ _ => rfl⟩
  · rename_i i hi
    have ht := (touchPte_same { s with hiAsid := (s.tlb i).asid } p v).tables
    exact ⟨ht.cur, ht.virt, ht.pfNum, ht.fifo, ht.pte⟩

/-- The tables after a fault at `v` that ends with the frame `f` on the page of `v`; `l` is what
stays of the FIFO in front of it and `out` the page that has lost the frame, if there is one. -/
structure Faulted (s t : VmSys) (v f : ℕ) (l : List ℕ) (k : ℕ) (out : Option ℕ) : Prop where
  cur : t.mmCurrent = s.mmCurrent
  virt : t.virt = Function.update s.virt f v
  pfNum : ∀ p, (t.mms p).pfNum = if p = s.mmCurrent then k else (s.mms p).pfNum
  fifo : ∀ p, (t.mms p).fifo = if p = s.mmCurrent then l ++ [f] else (s.mms p).fifo
  lo : ∀ p n, (pteAt (t.mms p).pgd n).tlbEntry =
    if p = s.mmCurrent ∧ n = vpn v then frameLo f
    else if p = s.mmCurrent ∧ out = some n then { (pteAt s.cur.pgd n).tlbEntry with v := false }
    else (pteAt (s.mms p).pgd n).tlbEntry
  info : ∀ p n, ¬ (p = s.mmCurrent ∧ out = some n) →
    (pteAt (t.mms p).pgd n).info = (pteAt (s.mms p).pgd n).info

theorem Faulted.congr {l : List ℕ} {k : ℕ} {out : Option ℕ} (h : SameTables s t)
    (hf : Faulted t u v f l k out) : Faulted s u v f l k out := by
  refine ⟨hf.cur.trans h.cur, by rw [hf.virt, h.virt], fun p => ?_, fun p => ?_, fun p n => ?_,
    fun p n => ?_⟩
  · rw [hf.pfNum, h.cur, h.pfNum]
  · rw [hf.fifo, h.cur, h.fifo]
  · rw [hf.lo, h.cur, h.pte, VmSys.cur, h.cur, h.pte]
    rfl
  · rw [← h.cur, ← h.pte]
    exact hf.info p n

theorem queuePage_pfNum (s : VmSys) (f v : ℕ) (fifo : List ℕ) (k p : ℕ) :
    ((queuePage s f v fifo k).mms p).pfNum = if p = s.mmCurrent then k else (s.mms p).pfNum := by
  by_cases e : p = s.mmCurrent
  · subst e
    simp [queuePage, VmSys.setCur]
  · simp [queuePage, VmSys.setCur, e]

structure ReleasedTables (s t : VmSys) (f out v : ℕ) : Prop where
  cur : t.mmCurrent = s.mmCurrent
  virt : t.virt = Function.update s.virt f v
  pfNum : ∀ p, (t.mms p).pfNum = (s.mms p).pfNum
  fifo : ∀ p, (t.mms p).fifo =
    if p = s.mmCurrent then s.cur.fifo.erase f ++ [f] else (s.mms p).fifo
  lo : ∀ p n, (pteAt (t.mms p).pgd n).tlbEntry =
    if p = s.mmCurrent ∧ n = vpn out then { (pteAt s.cur.pgd n).tlbEntry with v := false }
    else (pteAt (s.mms p).pgd n).tlbEntry
  info : ∀ p n, ¬ (p = s.mmCurrent ∧ n = vpn out) →
    (pteAt (t.mms p).pgd n).info = (pteAt (s.mms p).pgd n).info

theorem releasePage_tables (s : VmSys) (f out v : ℕ) :
    ReleasedTables s (releasePage s f out v) f out v := by
  have hmm := setCurPte_mm s out invalidated
  set u := tlbReset (setCurPte s out invalidated) (setCurPte s out invalidated).mmCurrent out
  have h1 : SameTables (setCurPte s out invalidated) u := tlbReset_tables _ _ _
  have hcur : u.mmCurrent = s.mmCurrent := h1.cur
  have hq := queuePage_mm u f v (u.cur.fifo.erase f ++ [f]) u.cur.pfNum
  have hfifo : ∀ p, (u.mms p).fifo = (s.mms p).fifo := fun p => (h1.fifo p).trans (hmm p).2.2
  have hnum : ∀ p, (u.mms p).pfNum = (s.mms p).pfNum := fun p => (h1.pfNum p).trans (hmm p).2.1
  have hpte : ∀ p n, pteAt ((releasePage s f out v).mms p).pgd n =
      if p = s.mmCurrent ∧ n = vpn out then invalidated (s.curPte out)
      else pteAt (s.mms p).pgd n := by
    intro p n
    refine (congrArg (pteAt · n) (hq p).2.1).trans ?_
    rw [h1.pte, setCurPte_pte]
  refine ⟨hcur, ?_, fun p => ?_, fun p => ?_, fun p n => ?_, fun p n hne => ?_⟩
  · exact congrArg (Function.update · f v) h1.virt
  · refine (queuePage_pfNum u f v _ u.cur.pfNum p).trans ?_
    rw [VmSys.cur, hnum, hnum]
    split_ifs with e
    · rw [e]
    · rfl
  · refine (hq p).2.2.trans ?_
    rw [hcur, hfifo, VmSys.cur, hcur, hfifo]
    rfl
  · rw [hpte]
    split_ifs with e
    · rw [e.2]
      rfl
    · rfl
  · rw [hpte, if_neg hne]

variable (env) in
theorem swapOnePage_of_write {access : VmSys → ℕ → Option (VmSys × ℕ)} {s2 : VmSys} {block n : ℕ}
    (hhead : s.cur.fifo.head? = some f)
    (hw : writePageToDisk env access (touchPte s s.mmCurrent (s.virt f)) (s.virt f)
      (s.curPte (s.virt f)).info = some (s2, block)) (haccess : access = vmAccess env (n + 2))
    (hr : rangeMapped s2 (s.virt f) ∨ vpn v ≠ vpn (s.virt f) ∧ (s2.curPte v).info = 0) :
    ∃ t, swapOnePage env access s v = some (t, (s.curPte (s.virt f)).tlbEntry.pfn <<< pageShift) ∧
      ReleasedTables s2 t f (s.virt f) v := by
  set out := s.virt f
  have hpte : (touchPte s s.mmCurrent out).entry s.mmCurrent
      (ptePtr (touchPte s s.mmCurrent out) s.mmCurrent out) = s.curPte out := by
    rw [entry_ptePtr, VmSys.pte, (touchPte_same s _ _).pte]
    rfl
  have hmm := setCurPte_mm s2 out fun pte => { pte with info := block }
  have hpte3 := setCurPte_pte s2 out fun pte => { pte with info := block }
  set s3 := setCurPte s2 out fun pte => { pte with info := block } with hs3
  have h4 := (touchPte_same s3 s3.mmCurrent v).tables
  set s4 := touchPte s3 s3.mmCurrent v with hs4
  have hload : ∃ s5, loadPageFromDisk access s4 out
      (s4.entry s3.mmCurrent (ptePtr s4 s3.mmCurrent v)).info = some s5 ∧ SameTables s4 s5 := by
    rcases hr with hr | ⟨hne, h0⟩
    · rw [haccess]
      refine loadPageFromDisk_tables env (h4.rangeMapped fun i hi hlt => ?_) n _
      rw [VmSys.curPte, VmSys.pte, hpte3]
      split_ifs with e
      · rw [← curPte_of_vpn e.2]
        exact hr i hi hlt
      · exact hr i hi hlt
    · refine ⟨s4, ?_, .refl s4⟩
      rw [entry_ptePtr, VmSys.pte, h4.pte, hpte3, if_neg fun h => hne h.2, loadPageFromDisk]
      exact if_pos h0
  obtain ⟨s5, hl, h5⟩ := hload
  have h := h4.trans h5
  have hrel := releasePage_tables s5 f out v
  have hcur : s5.mmCurrent = s2.mmCurrent := h.cur
  have hlo : ∀ p m, (pteAt (s5.mms p).pgd m).tlbEntry = (pteAt (s2.mms p).pgd m).tlbEntry := by
    intro p m
    rw [h.pte, hpte3]
    split_ifs with e
    · rw [e.1, e.2]
      rfl
    · rfl
  refine ⟨releasePage s5 f out v, ?_, hrel.cur.trans hcur, ?_, fun p => ?_, fun p => ?_,
    fun p m => ?_, fun p m hne => ?_⟩
  · unfold swapOnePage
    rw [hhead]
    simp only [Option.bind_eq_bind, Option.bind_some, touchPte_cur]
    rw [show s.virt f = out from rfl, hpte, hw]
    simp only [Option.bind_some]
    rw [← hs3, ← hs4, hl]
    rfl
  · rw [hrel.virt, h.virt]
    rfl
  · rw [hrel.pfNum, h.pfNum, (hmm p).2.1]
  · rw [hrel.fifo, hcur, h.fifo, (hmm p).2.2, VmSys.cur, hcur, h.fifo, (hmm _).2.2]
    rfl
  · rw [hrel.lo, hcur, hlo, VmSys.cur, hcur, hlo]
    rfl
  · rw [hrel.info p m (by rwa [hcur]), h.pte, hpte3, if_neg hne]

variable (env) in
theorem swapOnePage_mapped (hhead : s.cur.fifo.head? = some f) (hr : rangeMapped s (s.virt f))
    (v n : ℕ) : ∃ t u, swapOnePage env (vmAccess env (n + 2)) s v =
        some (t, s.frameAt (s.virt f) <<< pageShift) ∧ SameTables s u ∧
      ReleasedTables u t f (s.virt f) v := by
  have h1 := (touchPte_same s s.mmCurrent (s.virt f)).tables
  obtain ⟨u, block, hw, h2⟩ := writePageToDisk_tables env (h1.rangeMapped hr) n
    (s.curPte (s.virt f)).info
  have h := h1.trans h2
  obtain ⟨t, hswap, ht⟩ := swapOnePage_of_write (v := v) env hhead hw rfl (.inl (h.rangeMapped hr))
  exact ⟨t, u, hswap, h, ht⟩

theorem doPagefault_none {access : VmSys → ℕ → Option (VmSys × ℕ)} {paddr : ℕ}
    (hframe : faultFrame env (touchPte s s.mmCurrent v) = none)
    (hswap : swapOnePage env access { touchPte s s.mmCurrent v with clock := s.clock + 1 } v =
      some (u, paddr)) :
    doPagefault env access s v = some (setCurPte u v fun pte => { pte with
      tlbEntry := EntryLo.ofValue (((paddr >>> pageShift) <<< 6) ||| 0x1f) }) := by
  unfold doPagefault
  simp only [touchPte_cur, hframe]
  exact Option.bind_eq_some_iff.mpr ⟨(u, paddr), hswap, rfl⟩

theorem doPagefault_of_swap {access : VmSys → ℕ → Option (VmSys × ℕ)} {s2 : VmSys} {out : ℕ}
    (hframe : faultFrame env (touchPte s s.mmCurrent v) = none) (hsmall : f < machinePageNum)
    (hswap : swapOnePage env access { touchPte s s.mmCurrent v with clock := s.clock + 1 } v =
      some (u, f <<< pageShift)) (hu : ReleasedTables s2 u f out v) :
    ∃ t, doPagefault env access s v = some t ∧
      Faulted s2 t v f (s2.cur.fifo.erase f) s2.cur.pfNum (some (vpn out)) := by
  have hmap := setLo_mapped hsmall u v
  have hout : ∀ m, some (vpn out) = some m ↔ m = vpn out := fun m => by
    rw [Option.some_inj]
    exact eq_comm
  refine ⟨setCurPte u v fun pte => { pte with
    tlbEntry := EntryLo.ofValue ((((f <<< pageShift) >>> pageShift) <<< 6) ||| 0x1f) },
    doPagefault_none hframe hswap, hu.cur, hu.virt, fun p => ?_, fun p => ?_, fun p m => ?_, fun p m hne => ?_⟩
  · rw [(setCurPte_mm _ _ _ p).2.1, hu.pfNum]
    split_ifs with e
    · rw [e]
      rfl
    · rfl
  · rw [hmap.fifo, hu.fifo]
  · rw [hmap.pte, hu.cur]
    split_ifs with e e'
    · rfl
    · rw [hu.lo, if_pos ⟨e'.1, (hout m).mp e'.2⟩]
    · rw [hu.lo, if_neg fun h => e' ⟨h.1, (hout m).mpr h.2⟩]
  · rw [hmap.pte, hu.cur]
    rw [hout] at hne
    split_ifs with e
    · obtain ⟨rfl, rfl⟩ := e
      rw [VmSys.curPte, VmSys.pte, hu.cur]
      exact hu.info _ _ hne
    · exact hu.info p m hne

theorem doPagefault_fresh (hf : faultFrame env (touchPte s s.mmCurrent v) = some f)
    (access : VmSys → ℕ → Option (VmSys × ℕ)) : ∃ t, doPagefault env access s v = some t ∧
      Faulted s t v f s.cur.fifo (s.cur.pfNum + 1) none := by
  have ht := (touchPte_same s s.mmCurrent v).tables
  set s1 : VmSys := { touchPte s s.mmCurrent v with clock := s.clock + 1 }
  have h1 : SameTables s s1 := ⟨ht.cur, ht.virt, ht.pfNum, ht.fifo, ht.pte⟩
  have hfifo : s1.cur.fifo = s.cur.fifo := h1.fifo s.mmCurrent
  have hnum : s1.cur.pfNum = s.cur.pfNum := h1.pfNum s.mmCurrent
  set s2 := queuePage s1 f v (s1.cur.fifo ++ [f]) (s1.cur.pfNum + 1)
  have hq := queuePage_mm s1 f v (s1.cur.fifo ++ [f]) (s1.cur.pfNum + 1)
  have hpte2 : ∀ p n, pteAt (s2.mms p).pgd n = pteAt (s.mms p).pgd n := fun p n =>
    (congrArg (pteAt · n) (hq p).2.1).trans (h1.pte p n)
  have hmap := setLo_mapped (faultFrame_some hf).1 s2 v
  refine ⟨setCurPte s2 v fun pte => { pte with
    tlbEntry := EntryLo.ofValue ((((f <<< pageShift) >>> pageShift) <<< 6) ||| 0x1f) }, ?_, rfl,
    rfl, fun p => ?_, fun p => ?_, fun p n => ?_, fun p n _ => ?_⟩
  · unfold doPagefault
    simp only [touchPte_cur, hf]
    rfl
  · rw [(setCurPte_mm _ _ _ p).2.1, queuePage_pfNum, hnum, h1.pfNum]
    rfl
  · rw [hmap.fifo, (hq p).2.2, hfifo, h1.fifo]
    rfl
  · rw [hmap.pte, if_neg (by simp : ¬ (p = s.mmCurrent ∧ none = some n)), hpte2]
    exact apply_ite Pte.tlbEntry _ _ _
  · rw [hmap.pte, ← hpte2]
    split_ifs with e
    · rw [e.1, e.2]
      rfl
    · rfl

theorem doPagefault_reuse (hframe : faultFrame env (touchPte s s.mmCurrent v) = none)
    (hhead : s.cur.fifo.head? = some f) (hsmall : f < machinePageNum)
    (hpfn : (s.curPte (s.virt f)).tlbEntry.pfn = f) (hr : rangeMapped s (s.virt f)) (n : ℕ) :
    ∃ t, doPagefault env (vmAccess env (n + 2)) s v = some t ∧
      Faulted s t v f (s.cur.fifo.erase f) s.cur.pfNum (some (vpn (s.virt f))) := by
  have ht := (touchPte_same s s.mmCurrent v).tables
  set s1 : VmSys := { touchPte s s.mmCurrent v with clock := s.clock + 1 } with hs1
  have h1 : SameTables s s1 := ⟨ht.cur, ht.virt, ht.pfNum, ht.fifo, ht.pte⟩
  have hfifo : s1.cur.fifo = s.cur.fifo := h1.fifo s.mmCurrent
  obtain ⟨u, s2, hswap, h2, hu⟩ := swapOnePage_mapped env (s := s1) (f := f) (hfifo ▸ hhead)
    (h1.rangeMapped hr) v n
  rw [VmSys.frameAt, h1.curPte, show s1.virt f = s.virt f from rfl, hpfn] at hswap
  obtain ⟨t, hrun, hfault⟩ := doPagefault_of_swap hframe hsmall hswap hu
  have h := h1.trans h2
  refine ⟨t, hrun, ?_⟩
  have hc := hfault.congr h
  rw [VmSys.cur, h.cur, h.fifo, h.pfNum] at hc
  exact hc

end Tables

end OurOS
