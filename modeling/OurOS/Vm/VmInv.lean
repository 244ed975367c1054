import OurOS.Lib.Run
import OurOS.Vm.Vm

set_option linter.style.nameCheck false

namespace OurOS

def VmSys.pte (s : VmSys) (p vaddr : ℕ) : Pte := pteAt (s.mms p).pgd (vpn vaddr)

def VmSys.curPte (s : VmSys) (vaddr : ℕ) : Pte := s.pte s.mmCurrent vaddr

theorem curPte_of_vpn {s : VmSys} {v w : ℕ} (h : vpn w = vpn v) : s.curPte w = s.curPte v := by
  rw [VmSys.curPte, VmSys.pte, h]
  rfl

structure TlbInv (env : VmEnv) (s : VmSys) : Prop where
  hi : s.hiAsid = s.cur.asid % 256
  coherent : ∀ i < tlbNum, ∀ p ∈ env.procs, (s.tlb i).asid = (s.mms p).asid % 256 →
    ∀ v < userTop, (s.tlb i).vpn2 = vpn2 v → ((s.tlb i).half v).v = true →
      (s.tlb i).half v = (s.pte p v).tlbEntry
  foreign : ∀ i < tlbNum, (s.tlb i).isGlobal = true → (s.tlb i).asid = s.hiAsid
  unique : ∀ i < tlbNum, ∀ j < tlbNum, (s.tlb i).vpn2 = (s.tlb j).vpn2 →
    (s.tlb i).asid = (s.tlb j).asid → i = j

structure ProcInv (env : VmEnv) (s : VmSys) : Prop where
  cur : s.mmCurrent ∈ env.procs
  asid : ∀ p ∈ env.procs, ∀ q ∈ env.procs,
    (s.mms p).asid % 256 = (s.mms q).asid % 256 → p = q

structure OwnsFrames (env : VmEnv) (s : VmSys) : Prop where
  cur : s.mmCurrent ∈ env.procs
  nodup : ∀ p ∈ env.procs, (s.mms p).fifo.Nodup
  disjoint : ∀ p ∈ env.procs, ∀ q ∈ env.procs, ∀ f ∈ (s.mms p).fifo, f ∈ (s.mms q).fifo → p = q
  small : ∀ p ∈ env.procs, ∀ f ∈ (s.mms p).fifo, f < machinePageNum
  owned : ∀ p ∈ env.procs, ∀ f ∈ (s.mms p).fifo, s.virt f < userTop ∧
    (s.pte p (s.virt f)).tlbEntry.v = true ∧ (s.pte p (s.virt f)).tlbEntry.pfn = f
  valid : ∀ p ∈ env.procs, ∀ v < userTop, (s.pte p v).tlbEntry.v = true →
    (s.pte p v).tlbEntry.pfn ∈ (s.mms p).fifo ∧
      vpn (s.virt (s.pte p v).tlbEntry.pfn) = vpn v

structure FrameInv (env : VmEnv) (s : VmSys) : Prop extends ProcInv env s, OwnsFrames env s

structure VmInv (env : VmEnv) (s : VmSys) : Prop where
  frame : FrameInv env s
  tlb : TlbInv env s

structure SameMms (s t : VmSys) : Prop where
  cur : t.mmCurrent = s.mmCurrent
  hiAsid : t.hiAsid = s.hiAsid
  virt : t.virt = s.virt
  asid : ∀ p, (t.mms p).asid = (s.mms p).asid
  pfNum : ∀ p, (t.mms p).pfNum = (s.mms p).pfNum
  fifo : ∀ p, (t.mms p).fifo = (s.mms p).fifo
  pte : ∀ p n, pteAt (t.mms p).pgd n = pteAt (s.mms p).pgd n

/-- As `SameMms`, but the swap block numbers in the page tables may differ. -/
structure SameLo (s t : VmSys) : Prop where
  cur : t.mmCurrent = s.mmCurrent
  hiAsid : t.hiAsid = s.hiAsid
  virt : t.virt = s.virt
  asid : ∀ p, (t.mms p).asid = (s.mms p).asid
  fifo : ∀ p, (t.mms p).fifo = (s.mms p).fifo
  lo : ∀ p n, (pteAt (t.mms p).pgd n).tlbEntry = (pteAt (s.mms p).pgd n).tlbEntry

structure SameStore (s t : VmSys) : Prop where
  mem : t.mem = s.mem
  pool : t.pool = s.pool
  swapFile : t.swapFile = s.swapFile

namespace SameMms

variable {s t u : VmSys} {env : VmEnv}

theorem refl (s : VmSys) : SameMms s s :=
  ⟨rfl, rfl, rfl, fun _ => rfl, fun _ => rfl, fun _ => rfl, fun _ _ => rfl⟩

theorem trans (h₁ : SameMms s t) (h₂ : SameMms t u) : SameMms s u where
  cur := h₂.cur.trans h₁.cur
  hiAsid := h₂.hiAsid.trans h₁.hiAsid
  virt := h₂.virt.trans h₁.virt
  asid p := (h₂.asid p).trans (h₁.asid p)
  pfNum p := (h₂.pfNum p).trans (h₁.pfNum p)
  fifo p := (h₂.fifo p).trans (h₁.fifo p)
  pte p n := (h₂.pte p n).trans (h₁.pte p n)

theorem curPte (h : SameMms s t) (v : ℕ) : t.curPte v = s.curPte v := by
  rw [VmSys.curPte, VmSys.pte, h.cur, h.pte]
  rfl

theorem lo (h : SameMms s t) : SameLo s t :=
  ⟨h.cur, h.hiAsid, h.virt, h.asid, h.fifo, fun p n => by rw [h.pte]⟩

end SameMms

namespace SameLo

variable {s t : VmSys} {env : VmEnv}

theorem frameInv (h : SameLo s t) (hi : FrameInv env s) : FrameInv env t where
  cur := h.cur ▸ hi.cur
  asid := by simpa only [h.asid] using hi.asid
  nodup := by simpa only [h.fifo] using hi.nodup
  disjoint := by simpa only [h.fifo] using hi.disjoint
  small := by simpa only [h.fifo] using hi.small
  owned := by simpa only [h.fifo, h.virt, VmSys.pte, h.lo] using hi.owned
  valid := by simpa only [h.fifo, h.virt, VmSys.pte, h.lo] using hi.valid

theorem tlbInv (h : SameLo s t) (htlb : t.tlb = s.tlb) (hi : TlbInv env s) : TlbInv env t where
  hi := by
    rw [h.hiAsid, hi.hi, VmSys.cur, VmSys.cur, h.cur, h.asid]
  coherent := by simpa only [htlb, h.asid, VmSys.pte, h.lo] using hi.coherent
  foreign := by simpa only [htlb, h.hiAsid] using hi.foreign
  unique := by simpa only [htlb] using hi.unique

theorem vmInv (h : SameLo s t) (htlb : t.tlb = s.tlb) (hi : VmInv env s) : VmInv env t :=
  ⟨h.frameInv hi.frame, h.tlbInv htlb hi.tlb⟩

end SameLo

theorem touchPte_same (s : VmSys) (p v : ℕ) : SameMms s (touchPte s p v) := by
  have hmm : ∀ q, ((touchPte s p v).mms q).asid = (s.mms q).asid ∧
      ((touchPte s p v).mms q).pfNum = (s.mms q).pfNum ∧
      ((touchPte s p v).mms q).fifo = (s.mms q).fifo ∧
      ∀ n, pteAt ((touchPte s p v).mms q).pgd n = pteAt (s.mms q).pgd n := by
    intro q
    by_cases e : q = p
    · subst e
      simp [touchPte, pteAt_getPte]
    · simp [touchPte, e]
  exact ⟨rfl, rfl, rfl, fun q => (hmm q).1, fun q => (hmm q).2.1, fun q => (hmm q).2.2.1,
    fun q => (hmm q).2.2.2⟩

theorem touchPte_store (s : VmSys) (p v : ℕ) : SameStore s (touchPte s p v) := ⟨rfl, rfl, rfl⟩

theorem ptePtr_eq (s : VmSys) (p v : ℕ) : ptePtr s p v = (vpn v / ptNum, vpn v % ptNum) :=
  getPte_snd _ _

theorem entry_ptePtr (s t : VmSys) (p v : ℕ) : s.entry p (ptePtr t p v) = s.pte p v := by
  rw [ptePtr_eq]
  rfl

theorem addrBindToLo1_iff (v : ℕ) : addrBindToLo1 v = true ↔ vpn v % 2 = 1 := by
  simp only [addrBindToLo1, Nat.shiftLeft_eq, Nat.shiftRight_eq_div_pow, uintRange, vpn, pageSize,
    bne_iff_ne]
  omega

theorem vpn2_eq (v : ℕ) : vpn2 v = vpn v / 2 := by
  simp only [vpn2, vpn, pageSize, Nat.shiftRight_eq_div_pow]
  omega

/-- The pair of page table entries that a refill for `v` loads, as one TLB entry. -/
def pairEntry (s : VmSys) (v : ℕ) : TlbEntry :=
  ⟨vpn2 v, s.hiAsid, (pteAt s.cur.pgd (vpn v / 2 * 2)).tlbEntry,
    (pteAt s.cur.pgd (vpn v / 2 * 2 + 1)).tlbEntry⟩

theorem pairEntry_half (s : VmSys) {v w : ℕ} (h : vpn2 v = vpn2 w) :
    (pairEntry s v).half w = (s.curPte w).tlbEntry := by
  rw [vpn2_eq, vpn2_eq] at h
  rw [TlbEntry.half, VmSys.curPte, VmSys.pte]
  by_cases hb : addrBindToLo1 w = true
  · have hw := (addrBindToLo1_iff w).mp hb
    rw [if_pos hb, show vpn w = vpn v / 2 * 2 + 1 by omega]
    rfl
  · have hw := mt (addrBindToLo1_iff w).mpr hb
    rw [if_neg hb, show vpn w = vpn v / 2 * 2 by omega]
    rfl

theorem loPair_eq (v : ℕ) :
    loPair (vpn v / ptNum, vpn v % ptNum) (addrBindToLo1 v) =
      ((vpn v / 2 * 2 / ptNum, vpn v / 2 * 2 % ptNum),
        ((vpn v / 2 * 2 + 1) / ptNum, (vpn v / 2 * 2 + 1) % ptNum)) := by
  have hb := addrBindToLo1_iff v
  unfold loPair
  simp only [ptNum]
  split_ifs with h
  · have := hb.mp h
    simp only [Prod.mk.injEq]
    omega
  · have := mt hb.mpr h
    simp only [Prod.mk.injEq]
    omega

theorem touchPte_cur (s : VmSys) (p v : ℕ) : (touchPte s p v).mmCurrent = s.mmCurrent := rfl

section Refill

variable {env : VmEnv} {s : VmSys} {v : ℕ}

theorem refill_valid (access : VmSys → ℕ → Option (VmSys × ℕ))
    (hv : (s.curPte v).tlbEntry.v = true) (index : Option ℕ) :
    ∃ t i, __tlbRefill env access s v index = some (tlbw t i (pairEntry s v)) ∧ SameMms s t ∧
      SameStore s t ∧ t.tlb = s.tlb ∧ (index = some i ∨ index = none ∧ i < tlbNum) := by
  have hsame := touchPte_same s s.mmCurrent v
  have hpte : (touchPte s s.mmCurrent v).entry s.mmCurrent
      (ptePtr (touchPte s s.mmCurrent v) s.mmCurrent v) = s.curPte v := by
    rw [entry_ptePtr, VmSys.pte, hsame.pte]
    rfl
  have hpair : (⟨vpn2 v, (touchPte s s.mmCurrent v).hiAsid,
      ((touchPte s s.mmCurrent v).entry s.mmCurrent
        (loPair (ptePtr (touchPte s s.mmCurrent v) s.mmCurrent v) (addrBindToLo1 v)).1).tlbEntry,
      ((touchPte s s.mmCurrent v).entry s.mmCurrent
        (loPair (ptePtr (touchPte s s.mmCurrent v) s.mmCurrent v) (addrBindToLo1 v)).2).tlbEntry⟩ :
      TlbEntry) = pairEntry s v := by
    rw [ptePtr_eq, loPair_eq, pairEntry, VmSys.cur, ← hsame.pte, ← hsame.pte]
    rfl
  unfold __tlbRefill
  simp only [touchPte_cur, hpte, hv, if_true, hpair]
  cases index with
  | some i => exact ⟨_, i, rfl, hsame, touchPte_store _ _ _, rfl, .inl rfl⟩
  | none =>
    refine ⟨{ touchPte s s.mmCurrent v with clock := (touchPte s s.mmCurrent v).clock + 1 }, _, rfl,
      ?_, ⟨rfl, rfl, rfl⟩, rfl, .inr ⟨rfl, Nat.mod_lt _ (by decide)⟩⟩
    exact hsame.trans ⟨rfl, rfl, rfl, fun _ => rfl, fun _ => rfl, fun _ => rfl, fun _ _ => rfl⟩

end Refill

namespace TlbInv

variable {env : VmEnv} {s t : VmSys} {v i : ℕ}

theorem hits_iff (hi : TlbInv env s) (hlt : i < tlbNum) (n : ℕ) :
    (s.tlb i).hits n s.hiAsid = true ↔ (s.tlb i).vpn2 = n ∧ (s.tlb i).asid = s.hiAsid := by
  simp only [TlbEntry.hits, Bool.and_eq_true, Bool.or_eq_true, beq_iff_eq]
  refine and_congr_right fun _ => ⟨?_, .inl⟩
  rintro (h | h)
  exacts [h, hi.foreign i hlt h]

theorem tlbp_some {n a : ℕ} (h : tlbp s n a = some i) :
    i < tlbNum ∧ (s.tlb i).hits n a = true := by
  have hh := List.find?_some h
  exact ⟨List.mem_range.mp (List.mem_of_find?_eq_some h), hh⟩

theorem tlbp_none {n a : ℕ} (h : tlbp s n a = none) (hlt : i < tlbNum) :
    ¬ (s.tlb i).hits n a = true :=
  List.find?_eq_none.mp h i (List.mem_range.mpr hlt)

theorem tlbp_eq (hi : TlbInv env s) (hlt : i < tlbNum) {n : ℕ}
    (h : (s.tlb i).hits n s.hiAsid = true) : tlbp s n s.hiAsid = some i := by
  cases hp : tlbp s n s.hiAsid with
  | none => exact absurd h (tlbp_none hp hlt)
  | some j =>
    obtain ⟨hj, hh⟩ := tlbp_some hp
    rw [hi.hits_iff hlt] at h
    rw [hi.hits_iff hj] at hh
    rw [hi.unique i hlt j hj (h.1.trans hh.1.symm) (h.2.trans hh.2.symm)]

theorem load_pair (hf : FrameInv env s) (hi : TlbInv env s) (ht : SameMms s t)
    (htlb : t.tlb = s.tlb) (hlt : i < tlbNum)
    (hidx : tlbp s (vpn2 v) s.hiAsid = some i ∨ tlbp s (vpn2 v) s.hiAsid = none) :
    TlbInv env (tlbw t i (pairEntry s v)) := by
  have hti := ht.lo.tlbInv htlb hi
  have hself : (tlbw t i (pairEntry s v)).tlb i = pairEntry s v := Function.update_self ..
  have hother : ∀ j, j ≠ i → (tlbw t i (pairEntry s v)).tlb j = t.tlb j :=
    fun j hj => Function.update_of_ne hj ..
  have hfree : ∀ j < tlbNum, j ≠ i → (t.tlb j).vpn2 = vpn2 v → (t.tlb j).asid ≠ s.hiAsid := by
    intro j hj hne h1 h2
    rw [htlb] at h1 h2
    have hh := (hi.hits_iff hj (vpn2 v)).mpr ⟨h1, h2⟩
    rcases hidx with h | h
    · exact hne (Option.some.inj ((hi.tlbp_eq hj hh).symm.trans h))
    · exact tlbp_none h hj hh
  refine ⟨hti.hi, fun j hj p hp ha w hw hv2 hval => ?_, fun j hj hg => ?_,
    fun j hj k hk h1 h2 => ?_⟩
  · by_cases e : j = i
    · subst e
      rw [hself] at ha hv2 hval ⊢
      have hp' : p = s.mmCurrent := by
        refine hf.asid p hp _ hf.cur ?_
        rw [← ht.asid p]
        exact ha.symm.trans hi.hi
      rw [pairEntry_half s hv2, hp']
      change _ = (t.pte s.mmCurrent w).tlbEntry
      rw [← ht.cur]
      exact congrArg Pte.tlbEntry (ht.curPte w).symm
    · rw [hother j e] at ha hv2 hval ⊢
      exact hti.coherent j hj p hp ha w hw hv2 hval
  · by_cases e : j = i
    · subst e
      rw [hself]
      exact ht.hiAsid.symm
    · rw [hother j e] at hg ⊢
      exact hti.foreign j hj hg
  · by_cases e : j = i
    · subst e
      by_cases e' : k = j
      · exact e'.symm
      · rw [hself, hother k e'] at h1 h2
        exact absurd h2.symm (hfree k hk e' h1.symm)
    · by_cases e' : k = i
      · subst e'
        rw [hself, hother j e] at h1 h2
        exact absurd h2 (hfree j hj e h1)
      · rw [hother j e, hother k e'] at h1 h2
        exact hti.unique j hj k hk h1 h2

end TlbInv

section Access

variable {env : VmEnv} {s : VmSys} {v : ℕ}

theorem access_hit (hi : VmInv env s) (hv : v < userTop) {i : ℕ} (hlt : i < tlbNum)
    (hh : (s.tlb i).hits (vpn2 v) s.hiAsid = true) (hval : ((s.tlb i).half v).v = true) (n : ℕ) :
    vmAccess env (n + 1) s v = some (s, (s.curPte v).tlbEntry.pfn) := by
  have hc := (hi.tlb.hits_iff hlt _).mp hh
  have he := hi.tlb.coherent i hlt s.mmCurrent hi.frame.cur (hc.2.trans hi.tlb.hi) v hv hc.1 hval
  rw [vmAccess, if_neg (Nat.not_le_of_lt hv), hi.tlb.tlbp_eq hlt hh]
  simp only [hval, if_true]
  rw [he]
  rfl

theorem access_refill (hi : VmInv env s) (hv : v < userTop)
    (hval : (s.curPte v).tlbEntry.v = true) {index : Option ℕ}
    (hidx : tlbp s (vpn2 v) s.hiAsid = index) (access : VmSys → ℕ → Option (VmSys × ℕ)) (n : ℕ) :
    ∃ t, (__tlbRefill env access s v index).bind (vmAccess env (n + 1) · v) =
        some (t, (s.curPte v).tlbEntry.pfn) ∧
      SameMms s t ∧ SameStore s t ∧ VmInv env t := by
  obtain ⟨t, i, h1, h2, h3, h4, h5⟩ := refill_valid access hval index
  have hlt : i < tlbNum := by
    rcases h5 with rfl | ⟨-, h5⟩
    exacts [(TlbInv.tlbp_some hidx).1, h5]
  have hidx' : tlbp s (vpn2 v) s.hiAsid = some i ∨ tlbp s (vpn2 v) s.hiAsid = none := by
    rcases h5 with rfl | ⟨rfl, -⟩
    exacts [.inl hidx, .inr hidx]
  have htlb := TlbInv.load_pair hi.frame hi.tlb h2 h4 hlt hidx'
  have hsame : SameMms s (tlbw t i (pairEntry s v)) :=
    ⟨h2.cur, h2.hiAsid, h2.virt, h2.asid, h2.pfNum, h2.fifo, h2.pte⟩
  have hself : (tlbw t i (pairEntry s v)).tlb i = pairEntry s v := Function.update_self ..
  have hi' : VmInv env (tlbw t i (pairEntry s v)) := ⟨hsame.lo.frameInv hi.frame, htlb⟩
  have hhit := access_hit hi' hv hlt (by
    rw [hi'.tlb.hits_iff hlt, hself]
    exact ⟨rfl, h2.hiAsid.symm⟩) (by rwa [hself, pairEntry_half s rfl]) n
  refine ⟨_, ?_, hsame, ⟨h3.mem, h3.pool, h3.swapFile⟩, hi'⟩
  rw [h1, Option.bind_some, hhit, hsame.curPte]

theorem access_resident (hi : VmInv env s) (hv : v < userTop)
    (hval : (s.curPte v).tlbEntry.v = true) (n : ℕ) :
    ∃ t, vmAccess env (n + 2) s v = some (t, (s.curPte v).tlbEntry.pfn) ∧
      SameMms s t ∧ SameStore s t ∧ VmInv env t := by
  cases hp : tlbp s (vpn2 v) s.hiAsid with
  | none =>
    rw [vmAccess, if_neg (Nat.not_le_of_lt hv), hp]
    exact access_refill hi hv hval hp _ n
  | some i =>
    obtain ⟨hlt, hh⟩ := TlbInv.tlbp_some hp
    by_cases hb : ((s.tlb i).half v).v = true
    · exact ⟨s, access_hit hi hv hlt hh hb (n + 1), .refl s, ⟨rfl, rfl, rfl⟩, hi⟩
    · rw [vmAccess, if_neg (Nat.not_le_of_lt hv), hp]
      simp only [hb]
      exact access_refill hi hv hval hp _ n

end Access

end OurOS
