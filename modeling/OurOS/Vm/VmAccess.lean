import OurOS.Vm.VmFault

set_option linter.style.nameCheck false

namespace OurOS

section Fault

variable {env : VmEnv} {s t u : VmSys} {v f : ℕ}

theorem touchPte_idem (s : VmSys) (p v : ℕ) : touchPte (touchPte s p v) p v = touchPte s p v := by
  have hsome := getPte_isSome (s.mms p).pgd v
  have hpgd : (getPte (getPte (s.mms p).pgd v).1 v).1 = (getPte (s.mms p).pgd v).1 := by
    rw [Option.isSome_iff_ne_none] at hsome
    simp [getPte] at hsome ⊢
    tauto
  simp [touchPte, hpgd]

theorem faultFrame_some (h : faultFrame env s = some f) :
    f < machinePageNum ∧ ∀ p ∈ env.procs, f ∉ (s.mms p).fifo := by
  rw [faultFrame] at h
  split_ifs at h
  exact ⟨env.alloc_small s f h, env.alloc_fresh s f h⟩

theorem faultFrame_fresh (h : faultFrame env (touchPte s s.mmCurrent v) = some f) :
    f < machinePageNum ∧ ∀ p ∈ env.procs, f ∉ (s.mms p).fifo := by
  obtain ⟨hsmall, hnew⟩ := faultFrame_some h
  refine ⟨hsmall, fun p hp => ?_⟩
  rw [← (touchPte_same s s.mmCurrent v).fifo]
  exact hnew p hp

theorem Swapped.congr {block : ℕ} (h : SameMms s u) (hs : SameStore s u)
    (hsw : Swapped env u t f v block) : Swapped env s t f v block := by
  have hc := h.curPte
  have hf : ∀ x, u.frameAt x = s.frameAt x := fun x => by rw [VmSys.frameAt, hc]; rfl
  have hb : ∀ x, u.byteAt x = s.byteAt x := fun x => by
    rw [VmSys.byteAt, hf, hs.mem]
    rfl
  have hfifo : u.cur.fifo = s.cur.fifo := by rw [VmSys.cur, h.cur, h.fifo]; rfl
  refine ⟨hsw.tlb, hsw.cur.trans h.cur, fun p => (hsw.asid p).trans (h.asid p), ?_, fun p => ?_,
    fun p n => ?_, ?_, fun i hi => ?_, fun b hb => ?_, fun h0 i hi => ?_, fun g o hgo => ?_⟩
  · rw [hsw.virt, h.virt]
  · rw [hsw.fifo, h.cur, hfifo, h.fifo]
  · rw [hsw.pte, h.cur, h.virt, hc, h.pte]
  · rw [← hsw.pool, h.virt, hc, hs.pool]
  · rw [hsw.out i hi, h.virt, hb]
  · rw [hsw.kept b hb, hs.swapFile]
  · have h1 := hsw.loaded (by rwa [hc]) i hi
    rwa [h.virt, hf, hc] at h1
  · rw [hsw.mem g o, hs.mem]
    simpa only [h.virt, hf] using hgo

structure Mapped (s t : VmSys) (v f : ℕ) : Prop where
  cur : t.mmCurrent = s.mmCurrent
  asid : ∀ p, (t.mms p).asid = (s.mms p).asid
  virt : t.virt = s.virt
  fifo : ∀ p, (t.mms p).fifo = (s.mms p).fifo
  pte : ∀ p n, pteAt (t.mms p).pgd n = if p = s.mmCurrent ∧ n = vpn v then
    ⟨frameLo f, (s.curPte v).info⟩ else pteAt (s.mms p).pgd n
  store : SameStore s t

theorem setLo_mapped (hf : f < machinePageNum) (s : VmSys) (v : ℕ) :
    Mapped s (setCurPte s v fun pte => { pte with
      tlbEntry := EntryLo.ofValue ((((f <<< pageShift) >>> pageShift) <<< 6) ||| 0x1f) }) v f := by
  rw [ofValue_frame hf]
  have hmm := setCurPte_mm s v fun pte => { pte with tlbEntry := frameLo f }
  exact ⟨rfl, fun p => (hmm p).1, rfl, fun p => (hmm p).2.2, fun p n => setCurPte_pte _ _ _ p n,
    ⟨rfl, rfl, rfl⟩⟩

structure Allocated (env : VmEnv) (s t : VmSys) (v f : ℕ) : Prop where
  inv : VmInv env t
  cur : t.mmCurrent = s.mmCurrent
  virt : t.virt = Function.update s.virt f v
  fifo : ∀ p, (t.mms p).fifo = if p = s.mmCurrent then s.cur.fifo ++ [f] else (s.mms p).fifo
  pte : ∀ p n, pteAt (t.mms p).pgd n = if p = s.mmCurrent ∧ n = vpn v then
    ⟨frameLo f, (s.curPte v).info⟩ else pteAt (s.mms p).pgd n
  store : SameStore s t

theorem doPagefault_alloc (hi : VmInv env s) (hv : v < userTop)
    (hinv : (s.curPte v).tlbEntry.v = false)
    (hf : faultFrame env (touchPte s s.mmCurrent v) = some f)
    (access : VmSys → ℕ → Option (VmSys × ℕ)) :
    ∃ t, doPagefault env access s v = some t ∧ Allocated env s t v f := by
  have ht := touchPte_same s s.mmCurrent v
  obtain ⟨hsmall, hfresh⟩ := faultFrame_fresh hf
  set s1 : VmSys := { touchPte s s.mmCurrent v with clock := s.clock + 1 }
  have h1 : SameMms s s1 :=
    ⟨ht.cur, ht.hiAsid, ht.virt, ht.asid, ht.pfNum, ht.fifo, ht.pte⟩
  have hfifo1 : s1.cur.fifo = s.cur.fifo := ht.fifo s.mmCurrent
  set s2 := queuePage s1 f v (s1.cur.fifo ++ [f]) (s1.cur.pfNum + 1)
  have hq := queuePage_mm s1 f v (s1.cur.fifo ++ [f]) (s1.cur.pfNum + 1)
  have hpte2 : ∀ p n, pteAt (s2.mms p).pgd n = pteAt (s.mms p).pgd n := fun p n =>
    (congrArg (pteAt · n) (hq p).2.1).trans (h1.pte p n)
  have hcur2 : s2.curPte v = s.curPte v := hpte2 s.mmCurrent (vpn v)
  have hmap := setLo_mapped hsmall s2 v
  have htlb : TlbInv env s2 := (h1.lo.tlbInv rfl hi.tlb).queue _ _ _ _
  have hrun : doPagefault env access s v = some (setCurPte s2 v fun pte => { pte with
      tlbEntry := EntryLo.ofValue ((((f <<< pageShift) >>> pageShift) <<< 6) ||| 0x1f) }) := by
    unfold doPagefault
    simp only [touchPte_cur, hf]
    rfl
  have hpte : ∀ p n, pteAt ((setCurPte s2 v fun pte => { pte with
      tlbEntry := EntryLo.ofValue ((((f <<< pageShift) >>> pageShift) <<< 6) ||| 0x1f) }).mms
        p).pgd n = if p = s.mmCurrent ∧ n = vpn v then ⟨frameLo f, (s.curPte v).info⟩
          else pteAt (s.mms p).pgd n := by
    intro p n
    rw [hmap.pte, hcur2, hpte2]
    rfl
  have hfifo : ∀ p, ((setCurPte s2 v fun pte => { pte with
      tlbEntry := EntryLo.ofValue ((((f <<< pageShift) >>> pageShift) <<< 6) ||| 0x1f) }).mms
        p).fifo = if p = s.mmCurrent then s.cur.fifo ++ [f] else (s.mms p).fifo := by
    intro p
    rw [hmap.fifo, (hq p).2.2, hfifo1, h1.fifo]
    rfl
  refine ⟨_, hrun, ⟨?_, htlb.set_invalid (by rw [hcur2]; exact hinv)⟩, rfl, rfl, hfifo, hpte,
    ⟨rfl, rfl, rfl⟩⟩
  refine hi.frame.assign hv hinv hsmall (List.Sublist.refl _) (hfresh _ hi.frame.cur)
    (fun p hp _ => hfresh p hp) rfl
    (fun p => (hmap.asid p).trans ((hq p).1.trans (h1.asid p))) rfl hfifo ?_
    (fun p n hne _ => ?_) fun w hw hne hval => ?_
  · rw [hpte, if_pos ⟨rfl, rfl⟩]
  · rw [hpte, if_neg hne]
  · rw [VmSys.pte, hpte, if_neg fun h => hne h.2] at hval ⊢
    exact ⟨rfl, (hi.frame.valid _ hi.frame.cur w hw hval).1⟩

structure SwappedIn (env : VmEnv) (s t : VmSys) (v f block : ℕ) : Prop where
  inv : VmInv env t
  cur : t.mmCurrent = s.mmCurrent
  virt : t.virt = Function.update s.virt f v
  fifo : ∀ p, (t.mms p).fifo =
    if p = s.mmCurrent then s.cur.fifo.erase f ++ [f] else (s.mms p).fifo
  pte : ∀ p n, pteAt (t.mms p).pgd n =
    if p = s.mmCurrent ∧ n = vpn v then ⟨frameLo f, (s.curPte v).info⟩
    else if p = s.mmCurrent ∧ n = vpn (s.virt f) then
      ⟨{ (s.curPte (s.virt f)).tlbEntry with v := false }, block⟩
    else pteAt (s.mms p).pgd n
  store : ∃ u, Swapped env s u f v block ∧ SameStore u t

theorem doPagefault_swap (hi : VmInv env s) (hv : v < userTop)
    (hinv : (s.curPte v).tlbEntry.v = false)
    (hframe : faultFrame env (touchPte s s.mmCurrent v) = none)
    (hhead : s.cur.fifo.head? = some f) (hr : rangeResident s (s.virt f)) (n : ℕ) :
    ∃ t block, doPagefault env (vmAccess env (n + 2)) s v = some t ∧
      SwappedIn env s t v f block := by
  have ht := touchPte_same s s.mmCurrent v
  set s1 : VmSys := { touchPte s s.mmCurrent v with clock := s.clock + 1 }
  have h1 : SameMms s s1 :=
    ⟨ht.cur, ht.hiAsid, ht.virt, ht.asid, ht.pfNum, ht.fifo, ht.pte⟩
  have hfifo1 : s1.cur.fifo = s.cur.fifo := ht.fifo s.mmCurrent
  obtain ⟨u, block, hswap, hsw⟩ := swapOnePage_spec (v := v) (h1.lo.vmInv rfl hi)
    (hfifo1 ▸ hhead) (h1.rangeResident hr) (by rw [h1.curPte]; exact hinv) n
  have hsw := hsw.congr h1 ⟨rfl, rfl, rfl⟩
  have hmem : f ∈ s.cur.fifo := List.mem_of_head? hhead
  obtain ⟨-, hout, hpfn⟩ := hi.frame.owned s.mmCurrent hi.frame.cur f hmem
  have hsmall := hi.frame.small s.mmCurrent hi.frame.cur f hmem
  have hne : vpn v ≠ vpn (s.virt f) := by
    intro he
    rw [VmSys.pte, ← he] at hout
    exact absurd (hout.symm.trans hinv) (by decide)
  have hpteu : u.curPte v = s.curPte v := by
    rw [VmSys.curPte, VmSys.pte, hsw.pte, hsw.cur, if_neg fun h => hne h.2]
    rfl
  have hmap := setLo_mapped hsmall u v
  have hrun : doPagefault env (vmAccess env (n + 2)) s v = some (setCurPte u v fun pte => { pte with
      tlbEntry := EntryLo.ofValue ((((f <<< pageShift) >>> pageShift) <<< 6) ||| 0x1f) }) := by
    unfold doPagefault
    simp only [touchPte_cur, hframe]
    exact Option.bind_eq_some_iff.mpr ⟨(u, f <<< pageShift), hswap, rfl⟩
  set t := setCurPte u v fun pte => { pte with
    tlbEntry := EntryLo.ofValue ((((f <<< pageShift) >>> pageShift) <<< 6) ||| 0x1f) }
  have hpte : ∀ p n, pteAt (t.mms p).pgd n =
      if p = s.mmCurrent ∧ n = vpn v then ⟨frameLo f, (s.curPte v).info⟩
      else if p = s.mmCurrent ∧ n = vpn (s.virt f) then
        ⟨{ (s.curPte (s.virt f)).tlbEntry with v := false }, block⟩
      else pteAt (s.mms p).pgd n := by
    intro p n
    rw [hmap.pte, hpteu, hsw.cur, hsw.pte]
  have hfifo : ∀ p, (t.mms p).fifo =
      if p = s.mmCurrent then s.cur.fifo.erase f ++ [f] else (s.mms p).fifo :=
    fun p => (hmap.fifo p).trans (hsw.fifo p)
  have hnd := hi.frame.nodup s.mmCurrent hi.frame.cur
  refine ⟨t, block, hrun, ⟨?_, hsw.tlb.set_invalid (by rw [hpteu]; exact hinv)⟩,
    hmap.cur.trans hsw.cur, hmap.virt.trans hsw.virt, hfifo, hpte, u, hsw, hmap.store⟩
  refine hi.frame.assign hv hinv hsmall List.erase_sublist
    (fun h => absurd rfl (hnd.mem_erase_iff.mp h).1)
    (fun p hp hpc hfp => hpc (hi.frame.disjoint p hp _ hi.frame.cur f hfp hmem))
    (hmap.cur.trans hsw.cur) (fun p => (hmap.asid p).trans (hsw.asid p))
    (hmap.virt.trans hsw.virt) hfifo ?_ (fun p m hne' hl => ?_) fun w hw hnew hval => ?_
  · rw [hpte, if_pos ⟨rfl, rfl⟩]
  · rw [hpte, if_neg hne']
    split_ifs with h
    · obtain ⟨g, hg, hgm⟩ := hl h.1
      obtain ⟨hgf, hg⟩ := hnd.mem_erase_iff.mp hg
      obtain ⟨-, h3, h4⟩ := hi.frame.owned s.mmCurrent hi.frame.cur g hg
      rw [VmSys.pte, ← hgm, h.2] at h4
      exact absurd (h4.symm.trans hpfn) hgf
    · rfl
  · rw [VmSys.pte, hpte, if_neg fun h => hnew h.2] at hval ⊢
    split_ifs at hval ⊢ with h
    · have h2 := hi.frame.valid s.mmCurrent hi.frame.cur w hw hval
      refine ⟨rfl, hnd.mem_erase_iff.mpr ⟨fun he => h ⟨rfl, ?_⟩, h2.1⟩⟩
      exact h2.2.symm.trans (congrArg (fun g => vpn (s.virt g)) he)

theorem refill_invalid (access : VmSys → ℕ → Option (VmSys × ℕ))
    (hinv : (s.curPte v).tlbEntry.v = false) (index : Option ℕ) :
    __tlbRefill env access s v index = doPagefault env access s v := by
  have hpte : (touchPte s s.mmCurrent v).entry s.mmCurrent
      (ptePtr (touchPte s s.mmCurrent v) s.mmCurrent v) = s.curPte v := by
    rw [entry_ptePtr, VmSys.pte, (touchPte_same s s.mmCurrent v).pte]
    rfl
  unfold __tlbRefill
  simp only [touchPte_cur, hpte, hinv]
  unfold doPagefault
  simp only [touchPte_cur, touchPte_idem]
  rfl

theorem access_fault (hi : VmInv env s) (hv : v < userTop)
    (hinv : (s.curPte v).tlbEntry.v = false) (n : ℕ) :
    vmAccess env (n + 1) s v =
      (doPagefault env (vmAccess env n) s v).bind (vmAccess env n · v) := by
  rw [vmAccess, if_neg (Nat.not_le_of_lt hv)]
  cases hp : tlbp s (vpn2 v) s.hiAsid with
  | none =>
    simp only
    rw [refill_invalid _ hinv]
  | some i =>
    obtain ⟨hlt, hh⟩ := TlbInv.tlbp_some hp
    obtain ⟨h1, h2⟩ := (hi.tlb.hits_iff hlt _).mp hh
    have hlo : ((s.tlb i).half v).v ≠ true := by
      intro hval
      have he := hi.tlb.coherent i hlt s.mmCurrent hi.frame.cur (h2.trans hi.tlb.hi) v hv h1 hval
      rw [he] at hval
      exact absurd (hinv.symm.trans hval) (by decide)
    simp only [hlo]
    rw [refill_invalid _ hinv]
    rfl

theorem access_alloc (hi : VmInv env s) (hv : v < userTop)
    (hinv : (s.curPte v).tlbEntry.v = false)
    (hf : faultFrame env (touchPte s s.mmCurrent v) = some f) (n : ℕ) :
    ∃ t u, vmAccess env (n + 3) s v = some (u, f) ∧ Allocated env s t v f ∧ SameMms t u ∧
      SameStore t u ∧ VmInv env u := by
  obtain ⟨t, h1, h2⟩ := doPagefault_alloc hi hv hinv hf (vmAccess env (n + 2))
  have hpte : (t.curPte v).tlbEntry = frameLo f := by
    rw [VmSys.curPte, VmSys.pte, h2.pte, if_pos ⟨h2.cur, rfl⟩]
  obtain ⟨u, h3, h4, h5, h6⟩ := access_resident h2.inv hv (by rw [hpte]; rfl) n
  refine ⟨t, u, ?_, h2, h4, h5, h6⟩
  rw [access_fault hi hv hinv, h1, Option.bind_some, h3, hpte]
  rfl

theorem access_swap (hi : VmInv env s) (hv : v < userTop)
    (hinv : (s.curPte v).tlbEntry.v = false)
    (hframe : faultFrame env (touchPte s s.mmCurrent v) = none)
    (hhead : s.cur.fifo.head? = some f) (hr : rangeResident s (s.virt f)) (n : ℕ) :
    ∃ t u block, vmAccess env (n + 3) s v = some (u, f) ∧ SwappedIn env s t v f block ∧
      SameMms t u ∧ SameStore t u ∧ VmInv env u := by
  obtain ⟨t, block, h1, h2⟩ := doPagefault_swap hi hv hinv hframe hhead hr n
  have hpte : (t.curPte v).tlbEntry = frameLo f := by
    rw [VmSys.curPte, VmSys.pte, h2.pte, if_pos ⟨h2.cur, rfl⟩]
  obtain ⟨u, h3, h4, h5, h6⟩ := access_resident h2.inv hv (by rw [hpte]; rfl) n
  refine ⟨t, u, block, ?_, h2, h4, h5, h6⟩
  rw [access_fault hi hv hinv, h1, Option.bind_some, h3, hpte]
  rfl

end Fault

end OurOS
