import OurOS.Lib.Chains
import OurOS.Lib.Run
import OurOS.Fs.PathCreate
import OurOS.Fs.TreeRun
import OurOS.Mm.SlabRun
import OurOS.Vm.VmSwap

set_option linter.style.nameCheck false

namespace OurOS.PageSwap

open OurOS.Fs

/-- `block` is the field of that name; `pool` holds the others. -/
structure SwapSys where
  pool : PagePool
  block : ℕ → ℕ
  kernel : SlabSys
  fs : FsSys

def initPagePool (s : SwapSys) : SwapSys :=
  { s with pool := OurOS.initPagePool, block := fun _ => 0 }

def pagesPath : List ℕ := "/pages".toList.map Char.toNat

section Disk

variable (vm : VmEnv) (env : FsEnv)

-- an error pointer from `fs_open` is followed; what the other calls return is not looked at
def storePage (page : ℕ → ℕ) (blockNum : ℕ) : FsProg Unit := do
  let fp ← follow (fsOpen env pagesPath (fModeReadMask ||| fModeWriteMask))
  let _ ← Prog.attempt (fsSeek fp .head ((blockNum - 1) * pageSize))
  let _ ← Prog.attempt (fsWrite env fp ((List.range pageSize).map page))
  let _ ← Prog.attempt (fsClose env fp)

def writePageToDisk (s : SwapSys) (page : ℕ → ℕ) (blockNum : ℕ) : Option (SwapSys × ℕ) := do
  let (pool, blockNum) := if blockNum = 0 then allocSwapBlock vm s.pool else (s.pool, blockNum)
  let fs ← Prog.exec (storePage env page blockNum) s.fs
  return ({ s with pool := pool, fs := fs }, blockNum)

def deletePageOnDisk (s : SwapSys) (blockNum : ℕ) : SwapSys :=
  let pool := { s.pool with
    entry := Function.update s.pool.entry (blockNum - 1) s.pool.nextFree
    nextFree := blockNum }
  { s with kernel := kfree s.kernel (s.block (blockNum - 1)), pool := pool }

inductive SwapOp
  | write (page : ℕ → ℕ)
  | delete (blockNum : ℕ)

/-- The blocks that are in use, and those that have been deleted since they were handed out last. -/
structure SwapTrace where
  sys : SwapSys
  live : List ℕ
  deleted : List ℕ

def swapStep (t : SwapTrace) : SwapOp → Option SwapTrace
  | .write page => (writePageToDisk vm env t.sys page 0).map fun r =>
      ⟨r.1, r.2 :: t.live, t.deleted.erase r.2⟩
  | .delete blockNum =>
    if blockNum ∈ t.live then
      some ⟨deletePageOnDisk t.sys blockNum, t.live.erase blockNum, blockNum :: t.deleted⟩
    else none

def swapStart (s : SwapSys) : SwapTrace := ⟨initPagePool s, [], []⟩

end Disk

/-- The free list: 0 stands for `next_free`, and a block for the entry it has. -/
def links (pool : PagePool) (b : ℕ) : ℕ := if b = 0 then pool.nextFree else pool.entry (b - 1)

/-- The free list holds the deleted blocks and ends at the first block that was never used. The blocks
below are in use or on the list; entries from there on are still zero. -/
structure SwapInv (t : SwapTrace) (fresh : ℕ) : Prop where
  fresh_pos : 1 ≤ fresh
  fresh_le : fresh ≤ machinePageNum
  chain : Chain (links t.sys.pool) fresh (0 :: t.deleted)
  used : (t.live ++ t.deleted).Perm (List.range' 1 (fresh - 1))
  unused : ∀ i, fresh ≤ i + 1 → t.sys.pool.entry i = 0

section Step

variable {vm : VmEnv} {env : FsEnv} {t u : SwapTrace} {fresh : ℕ}

theorem swapStart_inv (s : SwapSys) : SwapInv (swapStart s) 1 where
  fresh_pos := le_rfl
  fresh_le := by decide
  chain := rfl
  used := .nil
  unused _ _ := rfl

theorem SwapInv.mem (h : SwapInv t fresh) {b : ℕ} :
    b ∈ t.live ∨ b ∈ t.deleted ↔ 1 ≤ b ∧ b < fresh := by
  have hpos := h.fresh_pos
  rw [← List.mem_append, h.used.mem_iff, List.mem_range'_1]
  omega

theorem SwapInv.nodup (h : SwapInv t fresh) : (t.live ++ t.deleted).Nodup :=
  h.used.nodup_iff.mpr (List.nodup_range' 1)

theorem SwapInv.apart (h : SwapInv t fresh) {b : ℕ} (hb : b ∈ t.deleted) : b ∉ t.live :=
  fun hl => List.disjoint_of_nodup_append h.nodup hl hb

theorem SwapInv.nextFree (h : SwapInv t fresh) :
    t.sys.pool.nextFree = t.deleted.headD fresh := by
  have hc := h.chain
  cases hd : t.deleted with
  | nil =>
    rw [hd] at hc
    exact hc
  | cons d ds =>
    rw [hd] at hc
    exact hc.1

theorem SwapInv.length (h : SwapInv t fresh) : t.live.length + t.deleted.length + 1 = fresh := by
  have hlen := h.used.length_eq
  have hpos := h.fresh_pos
  rw [List.length_append, List.length_range'] at hlen
  omega

theorem SwapInv.nextFree_bounds (h : SwapInv t fresh) :
    1 ≤ t.sys.pool.nextFree ∧ t.sys.pool.nextFree ≤ fresh := by
  rw [h.nextFree]
  cases hd : t.deleted with
  | nil => exact ⟨h.fresh_pos, le_rfl⟩
  | cons d ds =>
    obtain ⟨h1, h2⟩ := h.mem.mp (.inr (hd ▸ List.mem_cons_self : d ∈ t.deleted))
    exact ⟨h1, h2.le⟩

theorem SwapInv.alloc_fresh (h : SwapInv t fresh) (hd : t.deleted = [])
    (hroom : t.live.length < machinePageNum - 1) {s : SwapSys}
    (hs : s.pool = (allocSwapBlock vm t.sys.pool).1) :
    SwapInv ⟨s, fresh :: t.live, []⟩ (fresh + 1) := by
  have hpos := h.fresh_pos
  have hlen := h.length
  have hnext := h.nextFree
  rw [hd, List.length_nil] at hlen
  rw [hd, List.headD_nil] at hnext
  have hzero : poolEntry vm t.sys.pool (t.sys.pool.nextFree - 1) = 0 := by
    rw [poolEntry, if_pos (by omega)]
    exact h.unused _ (by omega)
  have hpool : s.pool = { t.sys.pool with
      nextFree := t.sys.pool.nextFree + 1, pageNum := t.sys.pool.pageNum + 1 } := by
    rw [hs, allocSwapBlock, hzero]
    exact congrArg Prod.fst (if_neg (by simp))
  refine ⟨Nat.succ_pos _, by omega, ?_, ?_, ?_⟩
  · change s.pool.nextFree = fresh + 1
    rw [hpool, hnext]
  · have hrange : List.range' 1 (fresh + 1 - 1) = List.range' 1 (fresh - 1) ++ [fresh] := by
      obtain ⟨n, rfl⟩ : ∃ n, fresh = n + 1 := ⟨fresh - 1, by omega⟩
      simp [List.range'_1_concat, Nat.add_comm]
    have hused := h.used
    rw [hd, List.append_nil] at hused
    rw [hrange, List.append_nil]
    exact (hused.cons fresh).trans (List.perm_append_singleton _ _).symm
  · intro i hi
    change s.pool.entry i = 0
    rw [hpool]
    exact h.unused i (by omega)

theorem SwapInv.alloc_deleted (h : SwapInv t fresh) {d : ℕ} {ds : List ℕ} (hd : t.deleted = d :: ds)
    {s : SwapSys} (hs : s.pool = (allocSwapBlock vm t.sys.pool).1) :
    SwapInv ⟨s, d :: t.live, ds⟩ fresh := by
  have hpos := h.fresh_pos
  have hle := h.fresh_le
  have hnext := h.nextFree
  have hchain := h.chain
  rw [hd] at hchain
  rw [hd, List.headD_cons] at hnext
  obtain ⟨hd1, hd2⟩ := h.mem.mp (.inr (hd ▸ List.mem_cons_self : d ∈ t.deleted))
  -- the entry of a deleted block is another one or the fresh block, so it is not zero
  have hentry : 1 ≤ links t.sys.pool d := by
    cases ds with
    | nil => exact hpos.trans (hchain.2 : links t.sys.pool d = fresh).ge
    | cons e es =>
      have he : e ∈ t.deleted := by simp [hd]
      exact (h.mem.mp (.inr he)).1.trans hchain.2.1.ge
  have hlink : poolEntry vm t.sys.pool (t.sys.pool.nextFree - 1) = links t.sys.pool d := by
    rw [hnext, poolEntry, if_pos (by omega), links, if_neg (by omega)]
  have hpool : s.pool = { t.sys.pool with nextFree := links t.sys.pool d } := by
    rw [hs, allocSwapBlock, hlink]
    exact congrArg Prod.fst (if_pos (by omega))
  have hrest : ∀ x, x ≠ 0 → links s.pool x = links t.sys.pool x := by
    intro x hx
    simp only [hpool, links, if_neg hx]
  refine ⟨hpos, hle, hchain.skip (by rw [hpool, links, if_pos rfl]) fun x hx => hrest x ?_, ?_, ?_⟩
  · have hmem : x ∈ t.deleted := by simp [hd, hx]
    exact Nat.pos_iff_ne_zero.mp (h.mem.mp (.inr hmem)).1
  · have hused := h.used
    rw [hd] at hused
    exact List.perm_middle.symm.trans hused
  · intro i hi
    change s.pool.entry i = 0
    rw [hpool]
    exact h.unused i hi

theorem SwapInv.alloc (h : SwapInv t fresh) (hroom : t.live.length < machinePageNum - 1) {s : SwapSys}
    (hs : s.pool = (allocSwapBlock vm t.sys.pool).1) :
    ∃ fresh', SwapInv ⟨s, t.sys.pool.nextFree :: t.live, t.deleted.erase t.sys.pool.nextFree⟩
      fresh' := by
  rw [h.nextFree]
  cases hd : t.deleted with
  | nil => exact ⟨fresh + 1, h.alloc_fresh hd hroom hs⟩
  | cons d ds =>
    rw [List.headD_cons, List.erase_cons_head]
    exact ⟨fresh, h.alloc_deleted hd hs⟩

theorem SwapInv.delete (h : SwapInv t fresh) {b : ℕ} (hb : b ∈ t.live) :
    SwapInv ⟨deletePageOnDisk t.sys b, t.live.erase b, b :: t.deleted⟩ fresh := by
  obtain ⟨hb1, hb2⟩ := h.mem.mp (.inl hb)
  have hchain := h.chain
  have hself : links (deletePageOnDisk t.sys b).pool b = links t.sys.pool 0 := by
    rw [links, if_neg (by omega), links, if_pos rfl]
    exact Function.update_self _ _ _
  refine ⟨h.fresh_pos, h.fresh_le, hchain.push rfl hself fun x hx => ?_, ?_, fun i hi => ?_⟩
  · have hx1 := (h.mem.mp (.inr hx)).1
    have hne : x ≠ b := fun e => h.apart hx (e ▸ hb)
    rw [links, if_neg (by omega), links, if_neg (by omega)]
    exact Function.update_of_ne (by omega) _ _
  · have hperm := (List.perm_cons_erase hb).append_right t.deleted
    exact List.perm_middle.trans (hperm.symm.trans h.used)
  · exact (Function.update_of_ne (by omega) _ _).trans (h.unused i hi)

theorem allocSwapBlock_snd (vm : VmEnv) (pool : PagePool) :
    (allocSwapBlock vm pool).2 = pool.nextFree := by
  rw [allocSwapBlock]
  split_ifs <;> rfl

/-- What a step that hands out a block hands out: `next_free`, from the free list if there is one. -/
theorem writePageToDisk_pool {page : ℕ → ℕ} {s : SwapSys} {n : ℕ}
    (h : writePageToDisk vm env t.sys page 0 = some (s, n)) :
    s.pool = (allocSwapBlock vm t.sys.pool).1 ∧ n = t.sys.pool.nextFree := by
  rw [writePageToDisk, if_pos rfl] at h
  rcases ha : allocSwapBlock vm t.sys.pool with ⟨pool, b⟩
  rw [ha] at h
  obtain ⟨fs, -, hr⟩ := Option.bind_eq_some_iff.mp h
  obtain ⟨rfl, rfl⟩ := Prod.mk.inj (Option.some.inj hr)
  exact ⟨rfl, (congrArg Prod.snd ha).symm.trans (allocSwapBlock_snd vm _)⟩

theorem SwapInv.step (h : SwapInv t fresh) {op : SwapOp} (hr : swapStep vm env t op = some u)
    (hroom : u.live.length ≤ machinePageNum - 1) : ∃ fresh', SwapInv u fresh' := by
  cases op with
  | write page =>
    obtain ⟨⟨s, n⟩, hw, rfl⟩ := Option.map_eq_some_iff.mp hr
    obtain ⟨hs, rfl⟩ := writePageToDisk_pool hw
    exact h.alloc hroom hs
  | delete b =>
    obtain ⟨hb, hr⟩ := Option.ite_none_right_eq_some.mp hr
    obtain rfl := Option.some.inj hr
    exact ⟨fresh, h.delete hb⟩

end Step

section Run

variable {vm : VmEnv} {env : FsEnv} {s : SwapSys} {ops : List SwapOp} {t u : SwapTrace}

theorem swapRun_inv
    (hlive : ∀ k u, runOps (swapStep vm env) (swapStart s) (ops.take k) = some u →
      u.live.length ≤ machinePageNum - 1)
    (hr : runOps (swapStep vm env) (swapStart s) ops = some t) : ∃ fresh, SwapInv t fresh := by
  induction ops using List.reverseRecOn generalizing t with
  | nil =>
    obtain rfl := Option.some.inj hr
    exact ⟨1, swapStart_inv s⟩
  | append_singleton ops op ih =>
    have hfull := hlive (ops ++ [op]).length t
    rw [List.take_length] at hfull
    rw [runOps_append] at hr
    obtain ⟨x, hx, hstep⟩ := Option.bind_eq_some_iff.mp hr
    obtain ⟨y, hy, he⟩ := Option.bind_eq_some_iff.mp hstep
    obtain rfl := Option.some.inj he
    have hbefore : ∀ k u, runOps (swapStep vm env) (swapStart s) (ops.take k) = some u →
        u.live.length ≤ machinePageNum - 1 := by
      intro k u hu
      refine hlive (min k ops.length) u ?_
      rwa [List.take_append_of_le_length (min_le_right _ _), ← List.take_eq_take_min]
    obtain ⟨fresh, hinv⟩ := ih hbefore hx
    refine hinv.step hy (hfull ?_)
    rw [runOps_append, hx]
    exact hstep

theorem swapRun_live_le {x : SwapTrace} (hr : runOps (swapStep vm env) x ops = some t) :
    t.live.length ≤ x.live.length + ops.length := by
  induction ops generalizing x with
  | nil =>
    obtain rfl := Option.some.inj hr
    exact le_rfl
  | cons op ops ih =>
    obtain ⟨y, hy, hr⟩ := Option.bind_eq_some_iff.mp hr
    have hstep : y.live.length ≤ x.live.length + 1 := by
      cases op with
      | write page =>
        obtain ⟨r, -, rfl⟩ := Option.map_eq_some_iff.mp hy
        exact le_rfl
      | delete b =>
        obtain ⟨-, hy⟩ := Option.ite_none_right_eq_some.mp hy
        obtain rfl := Option.some.inj hy
        exact List.length_erase_le.trans (Nat.le_succ _)
    have := ih hr
    rw [List.length_cons]
    omega

end Run

theorem swapRun_blocks (vm : VmEnv) (env : FsEnv) (s : SwapSys) {ops : List SwapOp} {t : SwapTrace}
    (hlive : ∀ k u, runOps (swapStep vm env) (swapStart s) (ops.take k) = some u →
      u.live.length ≤ machinePageNum - 1)
    (hr : runOps (swapStep vm env) (swapStart s) ops = some t) :
    t.sys.pool.nextFree ≤ machinePageNum ∧
      ∀ page r n, writePageToDisk vm env t.sys page 0 = some (r, n) →
        1 ≤ n ∧ n ∉ t.live ∧ (t.deleted ≠ [] → n ∈ t.deleted) := by
  obtain ⟨fresh, hinv⟩ := swapRun_inv hlive hr
  obtain ⟨hpos, hle⟩ := hinv.nextFree_bounds
  refine ⟨hle.trans hinv.fresh_le, fun page r n hw => ?_⟩
  obtain ⟨-, rfl⟩ := writePageToDisk_pool hw
  refine ⟨hpos, ?_, fun hne => ?_⟩
  · rw [hinv.nextFree]
    cases hd : t.deleted with
    | nil => exact fun hl => (hinv.mem.mp (.inl hl)).2.ne rfl
    | cons d ds =>
      have hmem : d ∈ t.deleted := by rw [hd]; exact List.mem_cons_self
      exact hinv.apart hmem
  · rw [hinv.nextFree]
    obtain ⟨d, ds, hd⟩ := List.exists_cons_of_ne_nil hne
    rw [hd]
    exact List.mem_cons_self

/-- The volume with the file `/pages`, one block long. -/
def pagesDisk : SdCard where
  sector sec o :=
    if sec < 1000 then endedDisk.sector sec o
    else if sec = 1000 ∧ o < 32 then
      if o < 11 then ("PAGES      ".toList.map Char.toNat).getD o 0
      else shortSfn 0 sfnAttrWrite 3 o
    else 0
  accesses := 0

def pagesSys : SwapSys :=
  { pool := OurOS.initPagePool
    block := fun _ => 0
    kernel := smallSlab.sys
    fs := { treeVolume with sd := pagesDisk } }

def pagesRun : List SwapOp := [.write fun _ => 1, .delete 1]

theorem pagesRun_reuses : ((runOps (swapStep twoFrames soundEnv) (swapStart pagesSys) pagesRun).bind
    fun t => (writePageToDisk twoFrames soundEnv t.sys (fun _ => 2) 0).map fun r =>
      (t.deleted, r.2)) = some ([1], 1) := by
  decide +kernel

theorem swapRun_blocks_small : ∃ t r,
    runOps (swapStep twoFrames soundEnv) (swapStart pagesSys) pagesRun = some t ∧
      writePageToDisk twoFrames soundEnv t.sys (fun _ => 2) 0 = some (r, 1) ∧
        t.sys.pool.nextFree ≤ machinePageNum ∧ 1 ∉ t.live ∧ 1 ∈ t.deleted := by
  obtain ⟨t, hr, hw⟩ := Option.bind_eq_some_iff.mp pagesRun_reuses
  obtain ⟨⟨r, n⟩, hw, he⟩ := Option.map_eq_some_iff.mp hw
  obtain ⟨hd, rfl⟩ := Prod.mk.inj he
  have hlive : ∀ k u, runOps (swapStep twoFrames soundEnv) (swapStart pagesSys) (pagesRun.take k) =
      some u → u.live.length ≤ machinePageNum - 1 := by
    intro k u hu
    have hlen := swapRun_live_le hu
    have htake : (pagesRun.take k).length ≤ 2 := List.length_take_le' k pagesRun
    have hmach : 2 ≤ machinePageNum - 1 := by decide
    exact (hlen.trans (by simpa [swapStart] using htake)).trans hmach
  obtain ⟨h1, h2⟩ := swapRun_blocks twoFrames soundEnv pagesSys hlive hr
  obtain ⟨-, h3, h4⟩ := h2 _ r 1 hw
  exact ⟨t, r, hr, hw, h1, h3, h4 (by rw [hd]; exact List.cons_ne_nil _ _)⟩

end OurOS.PageSwap
