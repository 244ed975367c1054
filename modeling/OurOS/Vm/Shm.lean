import OurOS.Mm.PageBlocks
import OurOS.Vm.PageTable

set_option linter.style.nameCheck false

namespace OurOS

open AlignedBlocks Links

def maxShmNum : ℕ := 8

def shmStructBytes : ℕ := 12

structure ShmStruct where
  pfnStart : ℕ
  pfnNum : ℕ
  count : ℕ
deriving DecidableEq, Repr

structure ShmSys where
  kernel : SlabTrace
  shmPool : ℕ → Option ShmStruct
  pgds : ℕ → Pgd
  mmCurrent : ℕ

def initShmPool : ℕ → Option ShmStruct := fun _ => none

def ShmSys.setBuddy (s : ShmSys) (b : BuddySys) : ShmSys :=
  { s with kernel := ⟨{ s.kernel.sys with buddy := b }, s.kernel.live⟩ }

/-- `count` is not initialised: `uninit` is what the memory of the new structure holds. -/
def shmget (s : ShmSys) (key : ℤ) (size uninit : ℕ) : Option (ShmSys × ℤ) :=
  if size = 0 ∨ key < 0 ∨ (maxShmNum : ℤ) ≤ key then some (s, -1)
  else
    match s.shmPool key.toNat with
    | some _ => some (s, key)
    | none =>
      let r := allocPages s.kernel.sys.buddy size
      let s := s.setBuddy r.1
      match r.2.filter (· != 0) with
      | none => some (s, -1)
      | some paddr =>
        match kmalloc s.kernel.sys shmStructBytes with
        -- the structure is written through the null pointer
        | (_, none) => none
        | (sys, some _) =>
          let shm : ShmStruct := ⟨getPgnByPaddr paddr,
            upperAlign size (1 <<< pageShift) >>> pageShift, uninit⟩
          some ({ s with
            kernel := ⟨sys, s.kernel.live⟩
            shmPool := Function.update s.shmPool key.toNat (some shm) }, key)

def bindPte (pfn : ℕ) (pte : Pte) : Pte :=
  { pte with tlbEntry := { pte.tlbEntry with pfn := pfn % 2 ^ 24, g := false, d := true, v := true } }

def bindPages (shm : ShmStruct) (n : ℕ) (pgd : Pgd) (p : ℕ) : Pgd × ℕ :=
  (List.range n).foldl (fun r i =>
    (setPte r.1 r.2 (bindPte (shm.pfnStart + i)), (r.2 + i * pageSize) % uintRange)) (pgd, p)

def shmat (s : ShmSys) (shmid : ℤ) (vaddr : ℕ) : ShmSys :=
  if shmid < 0 ∨ (maxShmNum : ℤ) ≤ shmid then s
  else
    match s.shmPool shmid.toNat with
    | none => s
    | some shm =>
      let r := bindPages shm shm.pfnNum (s.pgds s.mmCurrent) (lowerAlign vaddr (1 <<< pageShift))
      { s with
        pgds := Function.update s.pgds s.mmCurrent r.1
        shmPool := Function.update s.shmPool shmid.toNat
          (some { shm with count := (shm.count + 1) % uintRange }) }

inductive ShmOp where
  | kernel (op : SlabOp)
  | shmget (key : ℤ) (size uninit : ℕ)
  | shmat (shmid : ℤ) (vaddr : ℕ)
  | switchTo (mm : ℕ)
  | pageTable (pgd : Pgd)

/-- `kernel` is the other use of the kernel's memory, `pageTable` what else is written to the page
table of the current address space. -/
def shmStep (s : ShmSys) : ShmOp → Option ShmSys
  | .kernel op => (slabStep s.kernel op).map fun kernel => { s with kernel := kernel }
  | .shmget key size uninit =>
    if size < uintRange then (shmget s key size uninit).map Prod.fst else none
  | .shmat shmid vaddr => if vaddr < uintRange then some (shmat s shmid vaddr) else none
  | .switchTo mm => some { s with mmCurrent := mm }
  | .pageTable pgd => some { s with pgds := Function.update s.pgds s.mmCurrent pgd }

def shmStart (kernel : SlabTrace) (mm : ℕ) : ShmSys :=
  ⟨kernel, initShmPool, fun _ => createPt, mm⟩

structure SegInv (key : ℕ) (seg : ShmStruct) : Prop where
  key_lt : key < maxShmNum
  start_lt : seg.pfnStart < machinePageNum
  num_lt : seg.pfnNum < 2 ^ 20

structure ShmInv (s : ShmSys) : Prop where
  kernel : ∃ B lists objs, SlabTraceInv s.kernel B lists objs
  segs : ∀ key seg, s.shmPool key = some seg → SegInv key seg

theorem pfnNum_lt {size : ℕ} : upperAlign size (1 <<< pageShift) >>> pageShift < 2 ^ 20 := by
  have hlt : upperAlign size (1 <<< pageShift) < 2 ^ 32 :=
    lt_of_le_of_lt Nat.and_le_left (Nat.mod_lt _ (Nat.two_pow_pos 32))
  rw [Nat.shiftRight_eq_div_pow]
  exact Nat.div_lt_of_lt_mul hlt

theorem shmget_cases {s s' : ShmSys} {key r : ℤ} {size uninit : ℕ}
    (h : shmget s key size uninit = some (s', r)) :
    (s' = s ∧ r = -1 ∧ (size = 0 ∨ key < 0 ∨ (maxShmNum : ℤ) ≤ key)) ∨
    (∃ k seg, key = (k : ℕ) ∧ k < maxShmNum ∧ s.shmPool k = some seg ∧ s' = s ∧ r = key) ∨
    (∃ k b o, key = (k : ℕ) ∧ k < maxShmNum ∧ s.shmPool k = none ∧ 0 < size ∧
      allocPages s.kernel.sys.buddy size = (b, o) ∧
      ((o.filter (· != 0) = none ∧ s' = s.setBuddy b ∧ r = -1) ∨
      ∃ paddr sys objp, o = some paddr ∧ kmalloc { s.kernel.sys with buddy := b } shmStructBytes =
        (sys, some objp) ∧ r = key ∧ s' = { s with
          kernel := ⟨sys, s.kernel.live⟩
          shmPool := Function.update s.shmPool k (some ⟨getPgnByPaddr paddr,
            upperAlign size (1 <<< pageShift) >>> pageShift, uninit⟩) })) := by
  rw [shmget] at h
  split at h
  · rename_i hkey
    obtain ⟨rfl, rfl⟩ := Prod.mk.inj (Option.some.inj h)
    exact .inl ⟨rfl, rfl, hkey⟩
  rename_i hkey
  simp only [not_or, not_lt, not_le] at hkey
  obtain ⟨k, rfl⟩ := Int.eq_ofNat_of_zero_le hkey.2.1
  have hk : k < maxShmNum := Int.ofNat_lt.mp hkey.2.2
  rw [Int.toNat_natCast] at h
  refine .inr ?_
  split at h
  · rename_i seg hseg
    obtain ⟨rfl, rfl⟩ := Prod.mk.inj (Option.some.inj h)
    exact .inl ⟨k, seg, rfl, hk, hseg, rfl, rfl⟩
  rename_i hnone
  obtain ⟨b, o, ha⟩ : ∃ b o, allocPages s.kernel.sys.buddy size = (b, o) := ⟨_, _, rfl⟩
  refine .inr ⟨k, b, o, rfl, hk, hnone, Nat.pos_of_ne_zero hkey.1, ha, ?_⟩
  simp only [ha] at h
  split at h
  · rename_i hfilter
    obtain ⟨rfl, rfl⟩ := Prod.mk.inj (Option.some.inj h)
    exact .inl ⟨hfilter, rfl, rfl⟩
  · rename_i paddr hfilter
    split at h
    · simp at h
    · rename_i sys objp hm
      obtain ⟨rfl, rfl⟩ := Prod.mk.inj (Option.some.inj h)
      exact .inr ⟨paddr, sys, objp, (Option.filter_eq_some_iff.mp hfilter).1, hm, rfl, rfl⟩

theorem shmget_inv {s t : ShmSys} {key r : ℤ} {size uninit : ℕ} (hi : ShmInv s)
    (h : shmget s key size uninit = some (t, r)) : ShmInv t := by
  obtain ⟨B, lists, objs, hk⟩ := hi.kernel
  rcases shmget_cases h with ⟨rfl, -⟩ | ⟨k, seg, -, -, -, rfl, -⟩ | ⟨k, b, o, -, hlt, -, -, ha, hcase⟩
  · exact hi
  · exact hi
  obtain ⟨C, lists', h1, h2, h3⟩ := hk.inv.allocPages_spec ha
  have hb : SlabTraceInv (s.setBuddy b).kernel C lists' objs :=
    ⟨h1, hk.nodup, fun x hx => h2.isLive (hk.live x hx) (Set.notMem_empty x)⟩
  rcases hcase with ⟨-, rfl, -⟩ | ⟨paddr, sys, objp, rfl, hm, -, rfl⟩
  · exact ⟨⟨C, lists', objs, hb⟩, hi.segs⟩
  · obtain ⟨D, lists₂, objs', g1, g2, -⟩ := hb.inv.kmalloc_spec hm
    refine ⟨⟨D, lists₂, objs', g1, hb.nodup,
      fun x hx => g2.isLive (hb.live x hx) (Set.notMem_empty x)⟩, fun j seg hj => ?_⟩
    dsimp only at hj
    by_cases e : j = k
    · rw [e, Function.update_self] at hj
      obtain rfl := Option.some.inj hj
      obtain ⟨p, rfl, hp, -⟩ := h3 paddr rfl
      exact ⟨e ▸ hlt, (getPgnByPaddr_getPagePaddr p).symm ▸ hp, pfnNum_lt⟩
    · rw [Function.update_of_ne e] at hj
      exact hi.segs j seg hj

theorem shmat_inv {s : ShmSys} (hi : ShmInv s) (shmid : ℤ) (vaddr : ℕ) :
    ShmInv (shmat s shmid vaddr) := by
  rw [shmat]
  split
  · exact hi
  · split
    · exact hi
    · rename_i shm hshm
      refine ⟨hi.kernel, fun j seg hj => ?_⟩
      dsimp only at hj
      by_cases e : j = shmid.toNat
      · rw [e, Function.update_self] at hj
        obtain rfl := Option.some.inj hj
        obtain ⟨h1, h2, h3⟩ := hi.segs _ _ hshm
        exact ⟨e ▸ h1, h2, h3⟩
      · rw [Function.update_of_ne e] at hj
        exact hi.segs j seg hj

theorem shmStep_inv {s t : ShmSys} {op : ShmOp} (hi : ShmInv s) (h : shmStep s op = some t) :
    ShmInv t := by
  cases op with
  | kernel op =>
    obtain ⟨k, hk, rfl⟩ := Option.map_eq_some_iff.mp h
    exact ⟨slabStep_inv hi.kernel hk, hi.segs⟩
  | shmget key size uninit =>
    simp only [shmStep] at h
    split_ifs at h
    obtain ⟨r, hr, rfl⟩ := Option.map_eq_some_iff.mp h
    exact shmget_inv hi hr
  | shmat shmid vaddr =>
    simp only [shmStep] at h
    split_ifs at h
    exact Option.some.inj h ▸ shmat_inv hi shmid vaddr
  | switchTo mm =>
    obtain rfl := Option.some.inj h
    exact ⟨hi.kernel, hi.segs⟩
  | pageTable pgd =>
    obtain rfl := Option.some.inj h
    exact ⟨hi.kernel, hi.segs⟩

theorem shmRun_inv {boot : BootedMm} {pages : ℕ → Page} {links : PageLinks}
    {caches : ℕ → KmemCache} {slabs : ℕ → SlabHead} {objects : ObjectLinks} {mm : ℕ}
    {ops : List ShmOp} {s : ShmSys}
    (h : runOps shmStep (shmStart (slabStart boot pages links caches slabs objects) mm) ops =
      some s) : ShmInv s := by
  obtain ⟨B, lists, objs, hi, -⟩ := slabStart_inv boot pages links caches slabs objects
  refine runOps_invariant (fun _ _ _ => shmStep_inv) ⟨⟨B, lists, objs, hi⟩, ?_⟩ h
  simp [shmStart, initShmPool]

def segPage (vaddr i : ℕ) : ℕ := vpn ((lowerAlign vaddr pageSize + i * pageSize) % uintRange)

structure Attached (s t : ShmSys) (seg : ShmStruct) (vaddr : ℕ) : Prop where
  maps : ∀ i < seg.pfnNum,
    let lo := (pteAt (t.pgds s.mmCurrent) (segPage vaddr i)).tlbEntry
    lo.pfn = seg.pfnStart + i ∧ lo.v = true ∧ lo.d = true
  others : ∀ n, (∀ i < seg.pfnNum, n ≠ segPage vaddr i) →
    pteAt (t.pgds s.mmCurrent) n = pteAt (s.pgds s.mmCurrent) n
  spaces : ∀ mm, mm ≠ s.mmCurrent → t.pgds mm = s.pgds mm

/-- The current address space attaches the segment at `v`, then `mm` attaches it at `w`. -/
def SameFrames (s : ShmSys) (shmid : ℤ) (seg : ShmStruct) (v mm w : ℕ) : Prop :=
  let t := shmat { shmat s shmid v with mmCurrent := mm } shmid w
  ∀ i < seg.pfnNum, (pteAt (t.pgds s.mmCurrent) (segPage v i)).tlbEntry.pfn =
    (pteAt (t.pgds mm) (segPage w i)).tlbEntry.pfn

section Attach

variable {s : ShmSys} {seg : ShmStruct} {shmid : ℤ} {key v : ℕ}

theorem lowerAlign_lt (hv : v < uintRange) : lowerAlign v pageSize < uintRange ∧
    vpn (lowerAlign v pageSize) = vpn v := by
  have h := lowerAlign_eq (k := 12) hv (by decide)
  rw [show pageSize = 2 ^ 12 from rfl, h]
  refine ⟨lt_of_le_of_lt (Nat.div_mul_le_self _ _) hv, ?_⟩
  rw [vpn, vpn, show pageSize = 2 ^ 12 from rfl, Nat.mul_div_cancel _ (Nat.two_pow_pos 12)]

theorem segPage_zero (hv : v < uintRange) : segPage v 0 = vpn v := by
  obtain ⟨h1, h2⟩ := lowerAlign_lt hv
  rw [segPage, Nat.zero_mul, Nat.add_zero, Nat.mod_eq_of_lt h1, h2]

theorem bindPages_succ (seg : ShmStruct) (n : ℕ) (pgd : Pgd) (p : ℕ) :
    bindPages seg (n + 1) pgd p =
      (setPte (bindPages seg n pgd p).1 (bindPages seg n pgd p).2 (bindPte (seg.pfnStart + n)),
        ((bindPages seg n pgd p).2 + n * pageSize) % uintRange) := by
  simp only [bindPages, List.range_succ, List.foldl_append, List.foldl_cons, List.foldl_nil]

/-- The first step of the loop advances by `0 * PAGE_SIZE`, so the second frame is bound to the
first page as well, and no later step binds it to the first frame again. -/
theorem bindPages_first (seg : ShmStruct) (n : ℕ) (pgd : Pgd) {p : ℕ} (hp : p < uintRange) :
    ∃ j, 1 ≤ j ∧ j < n + 2 ∧
      (pteAt (bindPages seg (n + 2) pgd p).1 (vpn p)).tlbEntry.pfn = (seg.pfnStart + j) % 2 ^ 24 := by
  induction n with
  | zero =>
    refine ⟨1, le_rfl, by omega, ?_⟩
    have h1 : (bindPages seg 1 pgd p).2 = p := by
      rw [bindPages_succ]
      simpa [bindPages] using Nat.mod_eq_of_lt hp
    rw [bindPages_succ, h1, pteAt_setPte, if_pos rfl]
    rfl
  | succ n ih =>
    obtain ⟨j, h1, h2, h3⟩ := ih
    rw [bindPages_succ, pteAt_setPte]
    by_cases e : vpn p = vpn (bindPages seg (n + 2) pgd p).2
    · rw [if_pos e]
      exact ⟨n + 2, by omega, by omega, rfl⟩
    · rw [if_neg e]
      exact ⟨j, h1, by omega, h3⟩

theorem shmat_pgd (hkey : key < maxShmNum) (hseg : s.shmPool key = some seg) :
    (shmat s key v).pgds = Function.update s.pgds s.mmCurrent
        (bindPages seg seg.pfnNum (s.pgds s.mmCurrent) (lowerAlign v pageSize)).1 ∧
      (shmat s key v).shmPool key = some { seg with count := (seg.count + 1) % uintRange } := by
  have hk : ¬ ((key : ℤ) < 0 ∨ (maxShmNum : ℤ) ≤ key) := by omega
  rw [shmat, if_neg hk]
  simp only [Int.toNat_natCast, hseg, Function.update_self]
  exact ⟨rfl, trivial⟩

theorem attached_of_le (hkey : key < maxShmNum) (hseg : s.shmPool key = some seg)
    (hi : SegInv key seg) (hv : v < uintRange) (hn : seg.pfnNum ≤ 1) :
    Attached s (shmat s key v) seg v := by
  obtain ⟨hp, -⟩ := shmat_pgd (v := v) hkey hseg
  have hspaces : ∀ mm, mm ≠ s.mmCurrent → (shmat s key v).pgds mm = s.pgds mm := by
    intro mm hne
    rw [hp, Function.update_of_ne hne]
  have hcur : (shmat s key v).pgds s.mmCurrent =
      (bindPages seg seg.pfnNum (s.pgds s.mmCurrent) (lowerAlign v pageSize)).1 := by
    rw [hp, Function.update_self]
  have hstart := hi.start_lt
  rw [machinePageNum_eq] at hstart
  rcases Nat.le_one_iff_eq_zero_or_eq_one.mp hn with h0 | h1
  · refine ⟨fun i hi => by omega, fun n _ => ?_, hspaces⟩
    rw [hcur, h0]
    rfl
  · have hone : ∀ n, pteAt ((shmat s key v).pgds s.mmCurrent) n = if n = vpn v then
        bindPte seg.pfnStart (pteAt (s.pgds s.mmCurrent) (vpn v)) else
        pteAt (s.pgds s.mmCurrent) n := by
      intro n
      rw [hcur, h1, bindPages_succ]
      dsimp only
      rw [show (bindPages seg 0 (s.pgds s.mmCurrent) (lowerAlign v pageSize)) =
        (s.pgds s.mmCurrent, lowerAlign v pageSize) from rfl, pteAt_setPte, (lowerAlign_lt hv).2,
        Nat.add_zero]
    refine ⟨fun i hi => ?_, fun n hne => ?_, hspaces⟩
    · obtain rfl : i = 0 := by omega
      rw [segPage_zero hv, hone, if_pos rfl]
      refine ⟨?_, rfl, rfl⟩
      rw [bindPte, Nat.add_zero]
      exact Nat.mod_eq_of_lt (by omega)
    · rw [hone, if_neg]
      rw [← segPage_zero hv]
      exact hne 0 (by omega)

theorem sameFrames_of_le (hkey : key < maxShmNum) (hseg : s.shmPool key = some seg)
    (hi : SegInv key seg) {mm w : ℕ} (hmm : mm ≠ s.mmCurrent) (hv : v < uintRange)
    (hw : w < uintRange) (hn : seg.pfnNum ≤ 1) : SameFrames s key seg v mm w := by
  intro i hlt
  have h1 := attached_of_le hkey hseg hi hv hn
  obtain ⟨-, hpool⟩ := shmat_pgd (v := v) hkey hseg
  have h2 := attached_of_le (s := { shmat s key v with mmCurrent := mm }) hkey hpool
    ⟨hkey, hi.start_lt, hi.num_lt⟩ hw hn
  have h3 := (h1.maps i hlt).1
  have h4 := (h2.maps i hlt).1
  have h5 := h2.spaces s.mmCurrent hmm.symm
  dsimp only at h4 h5
  rw [h5, h3]
  exact h4.symm

end Attach

theorem shmat_attached_iff {boot : BootedMm} {pages : ℕ → Page} {links : PageLinks}
    {caches : ℕ → KmemCache} {slabs : ℕ → SlabHead} {objects : ObjectLinks} {mm : ℕ}
    {ops : List ShmOp} {s : ShmSys}
    (h : runOps shmStep (shmStart (slabStart boot pages links caches slabs objects) mm) ops =
      some s) {key : ℕ} {seg : ShmStruct} (hseg : s.shmPool key = some seg) {v : ℕ}
    (hv : v < uintRange) :
    (Attached s (shmat s key v) seg v ∧
        ∀ mm w, mm ≠ s.mmCurrent → w < uintRange → SameFrames s key seg v mm w) ↔
      seg.pfnNum ≤ 1 := by
  have hi := (shmRun_inv h).segs key seg hseg
  constructor
  · rintro ⟨ha, -⟩
    by_contra hn
    obtain ⟨n, hn⟩ := Nat.exists_eq_add_of_le' (show 2 ≤ seg.pfnNum by omega)
    obtain ⟨hlt, hvpn⟩ := lowerAlign_lt hv
    obtain ⟨j, h1, h2, h3⟩ := bindPages_first seg n (s.pgds s.mmCurrent) hlt
    have hfirst := (ha.maps 0 (by omega)).1
    rw [segPage_zero hv, (shmat_pgd hi.key_lt hseg).1, Function.update_self, hn, ← hvpn, h3]
      at hfirst
    have hstart := hi.start_lt
    have hnum := hi.num_lt
    rw [machinePageNum_eq] at hstart
    rw [Nat.mod_eq_of_lt (by omega)] at hfirst
    omega
  · intro hn
    exact ⟨attached_of_le hi.key_lt hseg hi hv hn,
      fun mm w hmm hw => sameFrames_of_le hi.key_lt hseg hi hmm hv hw hn⟩

theorem onePage_isSome : (runOps shmStep (shmStart smallSlab 0) [.shmget 2 128 0]).isSome = true := by
  decide +kernel

def onePage : ShmSys := Option.get _ onePage_isSome

theorem onePage_eq : runOps shmStep (shmStart smallSlab 0) [.shmget 2 128 0] = some onePage :=
  Option.some_get _ ▸ rfl

theorem shmat_attached_onePage : Attached onePage (shmat onePage 2 0x1234) ⟨16, 1, 0⟩ 0x1234 := by
  have hseg : onePage.shmPool 2 = some ⟨16, 1, 0⟩ := by decide +kernel
  exact ((shmat_attached_iff onePage_eq hseg (by decide)).mpr le_rfl).1

theorem twoPages_isSome :
    (runOps shmStep (shmStart smallSlab 0) [.shmget 3 8192 0]).isSome = true := by
  decide +kernel

def twoPages : ShmSys := Option.get _ twoPages_isSome

theorem twoPages_eq : runOps shmStep (shmStart smallSlab 0) [.shmget 3 8192 0] = some twoPages :=
  Option.some_get _ ▸ rfl

theorem twoPages_misplaced :
    runOps shmStep (shmStart smallSlab 0) [.shmget 3 8192 0] = some twoPages ∧
      twoPages.shmPool 3 = some ⟨16, 2, 0⟩ ∧
      (pteAt ((shmat twoPages 3 0x1000).pgds 0) (segPage 0x1000 0)).tlbEntry.pfn = 17 ∧
      (pteAt ((shmat twoPages 3 0x1000).pgds 0) (segPage 0x1000 1)).tlbEntry.v = false := by
  refine ⟨twoPages_eq, ?_, ?_, ?_⟩ <;> decide +kernel

end OurOS
