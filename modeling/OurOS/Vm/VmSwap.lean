import OurOS.Vm.VmRun

set_option linter.style.nameCheck false

namespace OurOS

def VmSys.infoAt (s : VmSys) (n : ℕ) : ℕ := (pteAt s.cur.pgd n).info

/-- `val` is what has been stored so far, by address: the last value where there was a store. -/
structure ContentInv (env : VmEnv) (s : VmSys) (val : ℕ → Option ℕ) : Prop where
  inv : VmInv env s
  next : 0 < s.pool.nextFree
  block_lt : ∀ n, s.infoAt n < s.pool.nextFree
  block_inj : ∀ n m, s.infoAt n ≠ 0 → s.infoAt n = s.infoAt m → n = m
  resident : ∀ v < userTop, ∀ b, val v = some b → (s.curPte v).tlbEntry.v = true → s.byteAt v = b
  swapped : ∀ v < userTop, ∀ b, val v = some b → (s.curPte v).tlbEntry.v = false →
    s.infoAt (vpn v) ≠ 0 ∧ s.swapFile (s.infoAt (vpn v)) (v % pageSize) = b

section Content

variable {env : VmEnv} {s t u : VmSys} {val : ℕ → Option ℕ} {v f : ℕ}

theorem SameMms.infoAt (h : SameMms s t) (n : ℕ) : t.infoAt n = s.infoAt n := by
  rw [VmSys.infoAt, VmSys.cur, h.cur, h.pte]
  rfl

theorem SameMms.byteAt (h : SameMms s t) (hs : SameStore s t) (w : ℕ) :
    t.byteAt w = s.byteAt w := by
  rw [VmSys.byteAt, VmSys.frameAt, h.curPte, hs.mem]
  rfl

theorem ContentInv.congr (hc : ContentInv env s val) (hi : VmInv env t) (h : SameMms s t)
    (hs : SameStore s t) : ContentInv env t val where
  inv := hi
  next := hs.pool ▸ hc.next
  block_lt n := by
    rw [h.infoAt, hs.pool]
    exact hc.block_lt n
  block_inj n m := by
    rw [h.infoAt, h.infoAt]
    exact hc.block_inj n m
  resident w hw b hb hval := by
    rw [h.curPte] at hval
    rw [h.byteAt hs]
    exact hc.resident w hw b hb hval
  swapped w hw b hb hval := by
    rw [h.curPte] at hval
    rw [h.infoAt, hs.swapFile]
    exact hc.swapped w hw b hb hval

theorem ContentInv.alloc (hc : ContentInv env s val) (ht : Allocated env s t v f)
    (hinv : (s.curPte v).tlbEntry.v = false) (hinfo : (s.curPte v).info = 0) :
    ContentInv env t val := by
  have hpte : ∀ n, n ≠ vpn v → pteAt t.cur.pgd n = pteAt s.cur.pgd n := by
    intro n hn
    rw [VmSys.cur, ht.cur, ht.pte, if_neg fun h => hn h.2]
    rfl
  have hat : ∀ n, t.infoAt n = s.infoAt n := by
    intro n
    by_cases hn : n = vpn v
    · subst hn
      rw [VmSys.infoAt, VmSys.cur, ht.cur, ht.pte, if_pos ⟨rfl, rfl⟩]
      rfl
    · rw [VmSys.infoAt, hpte n hn]
      rfl
  -- the page of `v` has never been stored to
  have hnew : ∀ w < userTop, ∀ b, val w = some b → vpn w ≠ vpn v := by
    intro w hw b hb hn
    refine (hc.swapped w hw b hb ?_).1 ?_
    · rw [curPte_of_vpn hn, hinv]
    · rw [hn]
      exact hinfo
  refine ⟨ht.inv, ht.store.pool ▸ hc.next, fun n => ?_, fun n m => ?_, fun w hw b hb hval => ?_,
    fun w hw b hb hval => ?_⟩
  · rw [hat, ht.store.pool]
    exact hc.block_lt n
  · rw [hat, hat]
    exact hc.block_inj n m
  · have hw' : t.curPte w = s.curPte w := hpte _ (hnew w hw b hb)
    rw [hw'] at hval
    rw [VmSys.byteAt, VmSys.frameAt, hw', ht.store.mem]
    exact hc.resident w hw b hb hval
  · have hw' : t.curPte w = s.curPte w := hpte _ (hnew w hw b hb)
    rw [hw'] at hval
    rw [hat, ht.store.swapFile]
    exact hc.swapped w hw b hb hval

theorem vpn_add_aligned {a i : ℕ} (ha : pageSize ∣ a) (hi : i < pageSize) :
    vpn (a + i) = vpn a ∧ (a + i) % pageSize = i := by
  obtain ⟨k, rfl⟩ := ha
  rw [vpn, vpn, Nat.mul_add_div (by decide), Nat.mul_div_cancel_left _ (by decide),
    Nat.mul_add_mod, Nat.mod_eq_of_lt hi, Nat.div_eq_of_lt hi]
  exact ⟨rfl, rfl⟩

theorem rangeResident_of_aligned (hi : VmInv env s) (hf : f ∈ s.cur.fifo)
    (ha : pageSize ∣ s.virt f) : rangeResident s (s.virt f) := by
  obtain ⟨h1, h2, -⟩ := hi.frame.owned s.mmCurrent hi.frame.cur f hf
  intro i hi
  refine ⟨?_, ?_⟩
  · obtain ⟨k, hk⟩ := ha
    simp only [userTop, pageSize] at *
    omega
  · rw [curPte_of_vpn (vpn_add_aligned ha hi).1]
    exact h2

theorem ContentInv.block_spec (hc : ContentInv env s val) {block : ℕ} {pool : PagePool} {out : ℕ}
    (hword : (s.curPte out).info = 0 → poolEntry env s.pool (s.pool.nextFree - 1) = 0)
    (hpool : (if (s.curPte out).info = 0 then allocSwapBlock env s.pool
      else (s.pool, (s.curPte out).info)) = (pool, block)) :
    block ≠ 0 ∧ block < pool.nextFree ∧ s.pool.nextFree ≤ pool.nextFree ∧
      ∀ n, n ≠ vpn out → s.infoAt n ≠ block := by
  have hnext := hc.next
  split_ifs at hpool with h0
  · have he : allocSwapBlock env s.pool =
        ({ s.pool with nextFree := s.pool.nextFree + 1, pageNum := s.pool.pageNum + 1 },
          s.pool.nextFree) := by
      simp [allocSwapBlock, hword h0]
    obtain ⟨rfl, rfl⟩ := Prod.mk.inj (he.symm.trans hpool)
    exact ⟨hnext.ne', Nat.lt_succ_self _, Nat.le_succ _, fun n _ => (hc.block_lt n).ne⟩
  · obtain ⟨rfl, rfl⟩ := Prod.mk.inj hpool
    exact ⟨h0, hc.block_lt _, le_rfl, fun n hn he => hn (hc.block_inj (vpn out) n h0 he.symm).symm⟩

theorem ContentInv.swap (hc : ContentInv env s val) {block : ℕ}
    (ht : SwappedIn env s t v f block) (hinv : (s.curPte v).tlbEntry.v = false)
    (hf : f ∈ s.cur.fifo) (ha : pageSize ∣ s.virt f)
    (hword : (s.curPte (s.virt f)).info = 0 → poolEntry env s.pool (s.pool.nextFree - 1) = 0) :
    ContentInv env t val := by
  obtain ⟨u, hsw, hstore⟩ := ht.store
  obtain ⟨hout, houtv, hpfn⟩ := hc.inv.frame.owned s.mmCurrent hc.inv.frame.cur f hf
  have hpool := hsw.pool
  rw [← hstore.pool] at hpool
  obtain ⟨hb0, hblt, hle, hbne⟩ := hc.block_spec hword hpool
  have hne : vpn v ≠ vpn (s.virt f) := by
    intro he
    rw [curPte_of_vpn he] at hinv
    exact absurd (houtv.symm.trans hinv) (by decide)
  have hframe : ∀ i < pageSize, s.frameAt (s.virt f + i) = f := by
    intro i hi
    rw [VmSys.frameAt, curPte_of_vpn (vpn_add_aligned ha hi).1]
    exact hpfn
  have hpte : ∀ n, pteAt t.cur.pgd n = if n = vpn v then ⟨frameLo f, (s.curPte v).info⟩
      else if n = vpn (s.virt f) then
        ⟨{ (s.curPte (s.virt f)).tlbEntry with v := false }, block⟩
      else pteAt s.cur.pgd n := by
    intro n
    rw [VmSys.cur, ht.cur, ht.pte]
    simp only [true_and]
    rfl
  have hat : ∀ n, t.infoAt n = if n = vpn (s.virt f) then block else s.infoAt n := by
    intro n
    rw [VmSys.infoAt, hpte]
    by_cases h1 : n = vpn v
    · subst h1
      rw [if_pos rfl, if_neg hne]
      rfl
    · rw [if_neg h1]
      split_ifs
      · rfl
      · rfl
  have hkept : ∀ b, b ≠ block → t.swapFile b = s.swapFile b := by
    intro b hb
    rw [hstore.swapFile, hsw.kept b hb]
  refine ⟨ht.inv, hc.next.trans_le hle, fun n => ?_, fun n m => ?_, fun w hw b hb hval => ?_,
    fun w hw b hb hval => ?_⟩
  · rw [hat]
    split_ifs
    · exact hblt
    · exact (hc.block_lt n).trans_le hle
  · rw [hat, hat]
    split_ifs with h1 h2 h2
    · exact fun _ _ => h1.trans h2.symm
    · exact fun _ he => absurd he.symm (hbne m h2)
    · exact fun _ he => absurd he (hbne n h1)
    · exact hc.block_inj n m
  · have hw' : t.curPte w = _ := hpte (vpn w)
    rw [VmSys.byteAt, VmSys.frameAt, hw', hstore.mem]
    rw [hw'] at hval
    split_ifs at hval ⊢ with h1 h2
    · -- the page just read in
      rw [curPte_of_vpn h1.symm] at hinv
      obtain ⟨h3, h4⟩ := hc.swapped w hw b hb hinv
      rw [h1] at h3 h4
      have hlt := Nat.mod_lt w (show 0 < pageSize by decide)
      have h5 := hsw.loaded h3 (w % pageSize) hlt
      rw [hframe _ hlt, (vpn_add_aligned ha hlt).2] at h5
      exact h5.trans ((congrFun (hsw.kept _ (hbne _ hne)) _).trans h4)
    · rw [← hc.resident w hw b hb hval]
      refine hsw.mem _ _ fun i hi he => h2 ?_
      rw [hframe i hi] at he
      have hvalid := (hc.inv.frame.valid s.mmCurrent hc.inv.frame.cur w hw hval).2
      rw [← hvalid]
      exact congrArg (fun g => vpn (s.virt g)) he.1
  · have hw' : t.curPte w = _ := hpte (vpn w)
    rw [hw'] at hval
    rw [hat]
    split_ifs at hval with h1 h2
    · exact absurd (hval.symm.trans (show (frameLo f).v = true from rfl)) (by decide)
    · -- the page just written out
      rw [if_pos h2]
      refine ⟨hb0, ?_⟩
      have hlt := Nat.mod_lt w (show 0 < pageSize by decide)
      obtain ⟨h3, h4⟩ := vpn_add_aligned ha hlt
      rw [hstore.swapFile, hsw.out _ hlt, VmSys.byteAt, VmSys.frameAt, curPte_of_vpn (h3.trans h2.symm),
        h4]
      refine hc.resident w hw b hb ?_
      rw [curPte_of_vpn h2]
      exact houtv
    · rw [if_neg h2, hkept _ (hbne _ h2)]
      exact hc.swapped w hw b hb hval

/-- The access does not fault, or takes a frame and has nothing on disk, or swaps with a victim
that was recorded under an aligned address and gets a block that `page_pool.entry` covers. -/
def swapsCleanly (env : VmEnv) (s : VmSys) (v : ℕ) : Prop :=
  (s.curPte v).tlbEntry.v = false →
    match faultFrame env (touchPte s s.mmCurrent v) with
    | some _ => (s.curPte v).info = 0
    | none => ∃ f, s.cur.fifo.head? = some f ∧ pageSize ∣ s.virt f ∧
        ((s.curPte (s.virt f)).info = 0 → poolEntry env s.pool (s.pool.nextFree - 1) = 0)

theorem access_content (hc : ContentInv env s val) (hv : v < userTop)
    (hs : swapsCleanly env s v) (n : ℕ) :
    ∃ t, vmAccess env (n + 3) s v = some (t, t.frameAt v) ∧ ContentInv env t val ∧
      (t.curPte v).tlbEntry.v = true := by
  by_cases hval : (s.curPte v).tlbEntry.v = true
  · obtain ⟨t, h1, h2, h3, h4⟩ := access_resident hc.inv hv hval (n + 1)
    refine ⟨t, ?_, hc.congr h4 h2 h3, ?_⟩
    · rw [VmSys.frameAt, h2.curPte]
      exact h1
    · rw [h2.curPte]
      exact hval
  · rw [Bool.not_eq_true] at hval
    have hs := hs hval
    cases hf : faultFrame env (touchPte s s.mmCurrent v) with
    | some f =>
      rw [hf] at hs
      obtain ⟨t, u, h1, h2, h3, h4, h5⟩ := access_alloc hc.inv hv hval hf n
      have hpte : (u.curPte v).tlbEntry = frameLo f := by
        rw [h3.curPte, VmSys.curPte, VmSys.pte, h2.pte, if_pos ⟨h2.cur, rfl⟩]
      refine ⟨u, ?_, (hc.alloc h2 hval hs).congr h5 h3 h4, by rw [hpte]; rfl⟩
      rw [h1, VmSys.frameAt, hpte]
      rfl
    | none =>
      rw [hf] at hs
      obtain ⟨f, hhead, ha, hword⟩ := hs
      have hmem := List.mem_of_head? hhead
      obtain ⟨t, u, block, h1, h2, h3, h4, h5⟩ := access_swap hc.inv hv hval hf hhead
        (rangeResident_of_aligned hc.inv hmem ha) n
      have hpte : (u.curPte v).tlbEntry = frameLo f := by
        rw [h3.curPte, VmSys.curPte, VmSys.pte, h2.pte, if_pos ⟨h2.cur, rfl⟩]
      refine ⟨u, ?_, (hc.swap h2 hval hmem ha hword).congr h5 h3 h4, by rw [hpte]; rfl⟩
      rw [h1, VmSys.frameAt, hpte]
      rfl

theorem ContentInv.store (hc : ContentInv env s val) (hv : v < userTop)
    (hval : (s.curPte v).tlbEntry.v = true) (byte : ℕ) :
    ContentInv env (writeFrame s (s.frameAt v) (v % pageSize) byte)
      (Function.update val v (some byte)) := by
  have hbyte : ∀ w, (writeFrame s (s.frameAt v) (v % pageSize) byte).byteAt w =
      if s.frameAt w = s.frameAt v ∧ w % pageSize = v % pageSize then byte else s.byteAt w := by
    intro w
    change Function.update s.mem _ _ (s.frameAt w) _ = _
    by_cases h1 : s.frameAt w = s.frameAt v
    · by_cases h2 : w % pageSize = v % pageSize
      · simp [h1, h2]
      · simp [h1, h2, VmSys.byteAt]
    · simp [h1, VmSys.byteAt]
  refine ⟨hc.inv.writeFrame _ _ _, hc.next, hc.block_lt, hc.block_inj, fun w hw b hb hwv => ?_,
    fun w hw b hb hwv => ?_⟩
  · rw [hbyte]
    by_cases e : w = v
    · subst e
      rw [Function.update_self] at hb
      rw [if_pos ⟨rfl, rfl⟩]
      exact Option.some.inj hb
    · rw [Function.update_of_ne e] at hb
      rw [if_neg, hc.resident w hw b hb hwv]
      rintro ⟨h1, h2⟩
      have h3 := (hc.inv.frame.valid s.mmCurrent hc.inv.frame.cur w hw hwv).2
      have h4 := (hc.inv.frame.valid s.mmCurrent hc.inv.frame.cur v hv hval).2
      have h5 : vpn w = vpn v := by
        rw [← h3, ← h4]
        exact congrArg (fun g => vpn (s.virt g)) h1
      refine e ?_
      rw [← Nat.div_add_mod w pageSize, ← Nat.div_add_mod v pageSize, h2]
      exact congrArg (pageSize * · + v % pageSize) h5
  · have e : w ≠ v := by
      rintro rfl
      exact absurd (hwv.symm.trans hval) (by decide)
    rw [Function.update_of_ne e] at hb
    exact hc.swapped w hw b hb hwv

def noteStore (val : ℕ → Option ℕ) : VmOp → ℕ → Option ℕ
  | .store vaddr byte => Function.update val vaddr (some byte)
  | _ => val

def lastStored (ops : List VmOp) : ℕ → Option ℕ := ops.foldl noteStore fun _ => none

def keepsContent (env : VmEnv) (s : VmSys) : VmOp → Prop
  | .load vaddr => vaddr < userTop ∧ swapsCleanly env s vaddr
  | .store vaddr _ => vaddr < userTop ∧ swapsCleanly env s vaddr
  | .switchTo _ => False

theorem vmStep_content (hc : ContentInv env s val) {op : VmOp} (hop : keepsContent env s op)
    (n : ℕ) : ∃ t, vmStep env (n + 3) s op = some t ∧ ContentInv env t (noteStore val op) := by
  cases op with
  | load v =>
    obtain ⟨t, h1, h2, -⟩ := access_content hc hop.1 hop.2 n
    refine ⟨t, ?_, h2⟩
    simp [vmStep, hop.1, userLoad, h1]
  | store v byte =>
    obtain ⟨t, h1, h2, h3⟩ := access_content hc hop.1 hop.2 n
    refine ⟨writeFrame t (t.frameAt v) (v % pageSize) byte, ?_, h2.store hop.1 h3 byte⟩
    simp [vmStep, hop.1, userStore, h1]
  | switchTo mm => exact absurd hop id

theorem vmRun_contentInv (n : ℕ) {ops : List VmOp} (hc : ContentInv env s val)
    (hm : RunMeets (vmStep env (n + 3)) (keepsContent env) s ops) :
    ∃ t, runOps (vmStep env (n + 3)) s ops = some t ∧
      ContentInv env t (ops.foldl noteStore val) := by
  induction ops generalizing s val with
  | nil => exact ⟨s, rfl, hc⟩
  | cons op ops ih =>
    obtain ⟨u, hu, hcu⟩ := vmStep_content hc hm.1 n
    obtain ⟨t, ht, hct⟩ := ih hcu (hm.2 u hu)
    exact ⟨t, Option.bind_eq_some_iff.mpr ⟨u, hu, ht⟩, hct⟩

theorem vmStart_content (boot : VmBoot env) : ContentInv env (vmStart boot) fun _ => none where
  inv := vmStart_inv boot
  next := Nat.one_pos
  block_lt _ := Nat.one_pos
  block_inj _ _ h := absurd rfl h
  resident _ _ _ h := absurd h (by simp)
  swapped _ _ _ h := absurd h (by simp)

theorem vmRun_loads {boot : VmBoot env} {ops : List VmOp} (n : ℕ)
    (hm : RunMeets (vmStep env (n + 3)) (keepsContent env) (vmStart boot) ops) :
    ∃ t, runOps (vmStep env (n + 3)) (vmStart boot) ops = some t ∧
      ∀ v b, lastStored ops v = some b → keepsContent env t (.load v) →
        ∃ u, userLoad (vmAccess env (n + 3)) t v = some (u, b) := by
  obtain ⟨t, ht, hc⟩ := vmRun_contentInv n (vmStart_content boot) hm
  refine ⟨t, ht, fun v b hb hop => ?_⟩
  obtain ⟨u, h1, h2, h3⟩ := access_content hc hop.1 hop.2 n
  refine ⟨u, ?_⟩
  have hbyte := h2.resident v hop.1 b hb h3
  rw [VmSys.byteAt] at hbyte
  simp [userLoad, h1, hbyte]

end Content

/-- Two frames are free, and two frames is what a process may have. -/
def twoFrames : VmEnv where
  procs := [1]
  limit := 2
  random := VmSys.clock
  allocOnePage s := if (s.mms 1).fifo.length < 2 then freshFrame [1] s else none
  behindEntry := fun _ => 0
  alloc_small s pfn h := by
    split_ifs at h
    exact (freshFrame_some h).1
  alloc_fresh s pfn h := by
    split_ifs at h
    exact (freshFrame_some h).2

def oneBoot : VmBoot twoFrames where
  asid := id
  mm := 1
  virt := fun _ => 0
  mem := fun _ _ => 0
  swapFile := fun _ _ => 0
  mm_mem := by decide
  asid_inj := by decide

section Small

variable {s t : VmSys} {a : ℕ}

theorem faultFrame_full (hcur : s.mmCurrent = 1) (hfifo : s.cur.fifo.length = 2) (v : ℕ) :
    faultFrame twoFrames (touchPte s s.mmCurrent v) = none := by
  have hlen : ((touchPte s s.mmCurrent v).mms 1).fifo.length = 2 := by
    rw [(touchPte_same _ _ _).fifo, ← hcur]
    exact hfifo
  rw [faultFrame]
  split_ifs
  · exact if_neg (by omega)
  · rfl

theorem swapsCleanly_of_frame {env : VmEnv} {v : ℕ}
    (h : (faultFrame env (touchPte s s.mmCurrent v)).isSome = true) (hinfo : (s.curPte v).info = 0) :
    swapsCleanly env s v := by
  intro _
  obtain ⟨f, hf⟩ := Option.isSome_iff_exists.mp h
  rw [hf]
  exact hinfo

/-- Both frames are in use, the first one since a store at `a`. -/
structure BothUsed (s : VmSys) (a : ℕ) : Prop where
  inv : VmInv twoFrames s
  cur : s.mmCurrent = 1
  fifo : s.cur.fifo = [5000, 5002]
  virt1 : s.virt 5000 = a
  virt2 : s.virt 5002 = 0x2000
  pte1 : s.curPte a = ⟨frameLo 5000, 0⟩
  pte2 : s.curPte 0x2000 = ⟨frameLo 5002, 0⟩
  pte5 : s.curPte 0x5000 = zeroPte
  next : s.pool.nextFree = 1
  entry0 : s.pool.entry 0 = 0
  entry1 : s.pool.entry 1 = 0

/-- The third page has got the first frame. -/
structure FirstSwap (t : VmSys) (a : ℕ) : Prop where
  inv : VmInv twoFrames t
  cur : t.mmCurrent = 1
  fifo : t.cur.fifo = [5002, 5000]
  virt : t.virt 5002 = 0x2000
  pte1 : t.curPte a = ⟨{ frameLo 5000 with v := false }, 1⟩
  pte2 : t.curPte 0x2000 = ⟨frameLo 5002, 0⟩
  next : t.pool.nextFree = 2
  entry : t.pool.entry 1 = 0

theorem usedRun (ha : a ∈ [0x1000, 0x1004]) :
    ∃ s, runOps (vmStep twoFrames 3) (vmStart oneBoot) [.store a 77, .load 0x2000] = some s ∧
      BothUsed s a ∧ s.mem 5000 8 = 0 := by
  have hfirst : ∀ a ∈ [0x1000, 0x1004], a < userTop ∧
      (faultFrame twoFrames (touchPte (vmStart oneBoot) 1 a)).isSome = true ∧
      ∀ t ∈ vmStep twoFrames 3 (vmStart oneBoot) (.store a 77),
        (faultFrame twoFrames (touchPte t t.mmCurrent 0x2000)).isSome = true := by
    decide +kernel
  have hfacts : ∀ a ∈ [0x1000, 0x1004], ∀ s ∈ runOps (vmStep twoFrames 3) (vmStart oneBoot)
      [.store a 77, .load 0x2000], (s.mmCurrent = 1 ∧ s.cur.fifo = [5000, 5002] ∧ s.virt 5000 = a ∧
        s.virt 5002 = 0x2000 ∧ s.curPte a = ⟨frameLo 5000, 0⟩) ∧
        (s.curPte 0x2000 = ⟨frameLo 5002, 0⟩ ∧ s.curPte 0x5000 = zeroPte ∧ s.pool.nextFree = 1 ∧
        s.pool.entry 0 = 0 ∧ s.pool.entry 1 = 0) ∧ s.mem 5000 8 = 0 := by
    decide +kernel
  obtain ⟨hlt, hframe, hnext⟩ := hfirst a ha
  have hm : RunMeets (vmStep twoFrames 3) (keepsIsolation twoFrames) (vmStart oneBoot)
      [.store a 77, .load 0x2000] :=
    ⟨⟨hlt, swapsResident_of_frame hframe⟩, fun t ht =>
      ⟨⟨by decide, swapsResident_of_frame (hnext t ht)⟩, fun _ _ => trivial⟩⟩
  obtain ⟨s, hs, hi⟩ := runOps_of_meets (P := VmInv twoFrames)
    (fun s op hi hop => vmStep_inv hi hop 0) (vmStart_inv oneBoot) hm
  obtain ⟨⟨h1, h2, h3, h4, h5⟩, ⟨h6, h7, h8, h9, h10⟩, h11⟩ := hfacts a ha s hs
  exact ⟨s, hs, ⟨hi, h1, h2, h3, h4, h5, h6, h7, h8, h9, h10⟩, h11⟩

theorem BothUsed.short (h : BothUsed s a) (v : ℕ) :
    faultFrame twoFrames (touchPte s s.mmCurrent v) = none :=
  faultFrame_full h.cur (by rw [h.fifo]; rfl) v

theorem FirstSwap.short (h : FirstSwap t a) (v : ℕ) :
    faultFrame twoFrames (touchPte t t.mmCurrent v) = none :=
  faultFrame_full h.cur (by rw [h.fifo]; rfl) v

theorem BothUsed.swap (h : BothUsed s a) (hvpn : vpn a = 1) (hr : rangeResident s a) :
    ∃ t, runOps (vmStep twoFrames 3) s [.load 0x5000] = some t ∧ FirstSwap t a ∧
      ∀ i < pageSize, t.swapFile 1 i = s.byteAt (a + i) := by
  obtain ⟨t, u, block, h1, h2, h3, h4, h5⟩ := access_swap (v := 0x5000) (f := 5000) h.inv
    (by decide) (by rw [h.pte5]; rfl) (h.short _) (by rw [h.fifo]; rfl) (h.virt1 ▸ hr) 0
  obtain ⟨w, hsw, hstore⟩ := h2.store
  have hpool := hsw.pool
  rw [h.virt1, h.pte1, if_pos rfl, allocSwapBlock, h.next] at hpool
  simp only [poolEntry, Nat.sub_self, h.entry0, machinePageNum] at hpool
  obtain ⟨hp, rfl⟩ := Prod.mk.inj hpool
  have hfifo : t.cur.fifo = [5002, 5000] := by
    rw [VmSys.cur, h2.cur, h2.fifo, if_pos rfl, h.fifo]
    rfl
  have hpte : ∀ v, t.curPte v = pteAt (t.mms s.mmCurrent).pgd (vpn v) := by
    intro v
    rw [VmSys.curPte, VmSys.pte, h2.cur]
  refine ⟨u, ?_, ⟨h5, ?_, ?_, ?_, ?_, ?_, ?_, ?_⟩, fun i hi => ?_⟩
  · simp [runOps, vmStep, userLoad, h1, userTop]
  · rw [h3.cur, h2.cur, h.cur]
  · rw [VmSys.cur, h3.cur, h3.fifo]
    exact hfifo
  · rw [h3.virt, h2.virt, Function.update_of_ne (by decide), h.virt2]
  · rw [h3.curPte, hpte, h2.pte, h.virt1, h.pte1, hvpn, if_neg fun e => absurd e.2 (by decide),
      if_pos ⟨rfl, rfl⟩]
  · rw [h3.curPte, hpte, h2.pte, h.virt1, hvpn, if_neg fun e => absurd e.2 (by decide),
      if_neg fun e => absurd e.2 (by decide)]
    exact h.pte2
  · rw [h4.pool, hstore.pool, ← hp]
  · rw [h4.pool, hstore.pool, ← hp]
    exact h.entry1
  · rw [h4.swapFile, hstore.swapFile, hsw.out i hi, h.virt1]

theorem FirstSwap.cleanly (h : FirstSwap t a) (v : ℕ) : swapsCleanly twoFrames t v := by
  intro _
  rw [h.short]
  refine ⟨5002, by rw [h.fifo]; rfl, by rw [h.virt]; decide, fun _ => ?_⟩
  rw [poolEntry, h.next, if_pos (by decide)]
  exact h.entry

/-- The byte stored first has been swapped out, and is swapped in again. -/
theorem vmRun_loads_small : ∃ t, runOps (vmStep twoFrames 3) (vmStart oneBoot)
    ([.store 0x1000 77, .load 0x2000] ++ [.load 0x5000]) = some t ∧
      (t.curPte 0x1000).tlbEntry.v = false ∧
      ∃ u, userLoad (vmAccess twoFrames 3) t 0x1000 = some (u, 77) := by
  obtain ⟨s, hs, hused, -⟩ := usedRun (a := 0x1000) (by decide)
  obtain ⟨t, ht, hswap, -⟩ := hused.swap (by decide) (hused.virt1 ▸ rangeResident_of_aligned
    hused.inv (by rw [hused.fifo]; decide) (by rw [hused.virt1]; decide))
  have hrun : runOps (vmStep twoFrames 3) (vmStart oneBoot)
      ([.store 0x1000 77, .load 0x2000] ++ [.load 0x5000]) = some t := by
    rw [runOps_append, hs]
    exact ht
  have hnext : ∀ t ∈ vmStep twoFrames 3 (vmStart oneBoot) (.store 0x1000 77),
      (faultFrame twoFrames (touchPte t t.mmCurrent 0x2000)).isSome = true ∧
        (t.curPte 0x2000).info = 0 := by
    decide +kernel
  have hm : RunMeets (vmStep twoFrames 3) (keepsContent twoFrames) (vmStart oneBoot)
      ([.store 0x1000 77, .load 0x2000] ++ [.load 0x5000]) := by
    refine ⟨⟨by decide, swapsCleanly_of_frame (by decide +kernel) (by decide +kernel)⟩, fun u hu =>
      ⟨⟨by decide, swapsCleanly_of_frame (hnext u hu).1 (hnext u hu).2⟩, fun w hw =>
      ⟨⟨by decide, fun _ => ?_⟩, fun _ _ => trivial⟩⟩⟩
    obtain rfl : w = s := Option.some.inj ((by simp [runOps, hu, hw] : _ = some w).symm.trans hs)
    rw [hused.short]
    refine ⟨5000, by rw [hused.fifo]; rfl, by rw [hused.virt1]; decide, fun _ => ?_⟩
    rw [poolEntry, hused.next, if_pos (by decide)]
    exact hused.entry0
  obtain ⟨t', ht', hload⟩ := vmRun_loads 0 hm
  obtain rfl := Option.some.inj (hrun.symm.trans ht')
  exact ⟨t, hrun, by rw [hswap.pte1], hload 0x1000 77 rfl ⟨by decide, hswap.cleanly _⟩⟩

theorem BothUsed.resident (h : BothUsed s 0x1004) : rangeResident s 0x1004 := by
  intro i hi
  simp only [pageSize] at hi
  have hvpn : vpn (0x1004 + i) = vpn 0x1004 ∨ vpn (0x1004 + i) = vpn 0x2000 := by
    simp only [vpn, pageSize]
    omega
  refine ⟨by simp only [userTop]; omega, ?_⟩
  rcases hvpn with e | e
  · rw [curPte_of_vpn e, h.pte1]
    rfl
  · rw [curPte_of_vpn e, h.pte2]
    rfl

theorem FirstSwap.load (h : FirstSwap t 0x1004) (hblock : t.swapFile 1 4 = 0) :
    ∃ u, userLoad (vmAccess twoFrames 3) t 0x1004 = some (u, 0) := by
  have hmem : 5002 ∈ t.cur.fifo := by simp [h.fifo]
  have ha : pageSize ∣ t.virt 5002 := by
    rw [h.virt]
    decide
  obtain ⟨s, u, block, h1, h2, h3, h4, -⟩ := access_swap (v := 0x1004) (f := 5002) h.inv
    (by decide) (by rw [h.pte1]) (h.short _) (by rw [h.fifo]; rfl)
    (rangeResident_of_aligned h.inv hmem ha) 0
  obtain ⟨w, hsw, hstore⟩ := h2.store
  have hpool := hsw.pool
  rw [h.virt, h.pte2, if_pos rfl, allocSwapBlock, h.next] at hpool
  simp only [poolEntry, h.entry, machinePageNum] at hpool
  obtain ⟨-, rfl⟩ := Prod.mk.inj hpool
  have hload := hsw.loaded (by rw [h.pte1]; decide) 4 (by decide)
  rw [h.virt, h.pte1, VmSys.frameAt, curPte_of_vpn (v := 0x2000) (by decide), h.pte2] at hload
  have hkept := congrFun (hsw.kept 1 (by decide)) 4
  have hbyte : u.mem 5002 (0x1004 % pageSize) = 0 := by
    rw [h4.mem, hstore.mem]
    exact hload.trans (hkept.trans hblock)
  exact ⟨u, Option.bind_eq_some_iff.mpr ⟨(u, 5002), h1, by rw [← hbyte]; rfl⟩⟩

end Small

theorem vmRun_loads_fail :
    ¬ ∀ (env : VmEnv) (boot : VmBoot env) (fuel : ℕ) (ops : List VmOp) (t u : VmSys) (v b c : ℕ),
      env.procs = [boot.mm] → 2 ≤ env.limit →
      runOps (vmStep env fuel) (vmStart boot) ops = some t → lastStored ops v = some b →
      userLoad (vmAccess env fuel) t v = some (u, c) → c = b := by
  intro h
  obtain ⟨s, hs, hused, hmem⟩ := usedRun (a := 0x1004) (by decide)
  obtain ⟨t, ht, hswap, hout⟩ := hused.swap (by decide) hused.resident
  have hblock : t.swapFile 1 4 = 0 := by
    rw [hout 4 (by decide), VmSys.byteAt, VmSys.frameAt, curPte_of_vpn (v := 0x1004) (by decide),
      hused.pte1]
    exact hmem
  obtain ⟨u, hu⟩ := hswap.load hblock
  have hrun : runOps (vmStep twoFrames 3) (vmStart oneBoot)
      ([.store 0x1004 77, .load 0x2000] ++ [.load 0x5000]) = some t := by
    rw [runOps_append]
    exact Option.bind_eq_some_iff.mpr ⟨s, hs, ht⟩
  have hlast : lastStored ([.store 0x1004 77, .load 0x2000] ++ [.load 0x5000]) 0x1004 = some 77 :=
    rfl
  exact absurd (h twoFrames oneBoot 3 _ t u 0x1004 77 0 rfl (by decide) hrun hlast hu) (by decide)

end OurOS
